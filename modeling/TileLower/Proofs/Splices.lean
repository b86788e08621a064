import TileLower.Proofs.Scopes

/-!
Functions that differ from a well-formed one around a single operation, and are well formed again:
`Splice.wellFormed`.
-/
namespace TileLower.Graph

open List

variable {g g' : Graph} {id : OpId} {ids : List OpId}

structure Sound (g : Graph) (ids : List OpId) : Prop where
  formed : g.WellFormed
  within : ∀ j ∈ ids, j < g.ops.size
  listed : ∀ j ∈ ids, ∀ b, (g.op j).block = some b → j ∈ (g.block b).ops
  owner : ∀ j ∈ ids, g.isAlive j = true → ∀ r, (g.op j).region = some r → (g.block r).owner = some j

theorem At.block {b scope} (place : g.At b scope id) (formed : g.WellFormed) : (g.op id).block = some b := by
  obtain ⟨⟨_,-,here⟩,-⟩ := place.formed formed
  exact here.block

theorem At.listed {b scope} (place : g.At b scope id) : id ∈ (g.block b).ops := by
  obtain ⟨_,pre,post,-,split,-⟩ := place
  simp [split]

theorem Scope.place {b visible} (scope : g.Scope b visible) (mem : id ∈ (g.block b).ops) :
    ∃ seen, g.At b seen id := by
  obtain ⟨pre,post,split⟩ := append_of_mem mem
  exact ⟨_,visible,pre,post,scope,split,rfl⟩

theorem At.origin {b scope j} (place : g.At b scope j) {i} (mem : .result id i ∈ scope) : ∃ c seen, g.At c seen id := by
  obtain ⟨visible,pre,post,outer,split,rfl⟩ := place
  rcases seenResult mem with old | ⟨before,-⟩
  · obtain ⟨c,_,scope,listed,-⟩ := outer.origin old
    exact ⟨c,scope.place listed⟩
  · exact ⟨b,outer.place (by simp [split,before])⟩

theorem WellFormed.sound (formed : g.WellFormed) : g.Sound g.walkAll := by
  have at_ (j : OpId) (mem : j ∈ g.walkAll) : ∃ c scope, g.At c scope j := atOfWalk .body mem
  refine ⟨formed,fun j mem => ?_,fun j mem b block => ?_,fun j mem _ r region => ?_⟩
  · obtain ⟨c,scope,place⟩ := at_ j mem
    exact blockInside (place.block formed)
  · obtain ⟨c,scope,place⟩ := at_ j mem
    cases block.symm.trans (place.block formed)
    exact place.listed
  · obtain ⟨c,scope,place⟩ := at_ j mem
    obtain ⟨⟨_,-,here⟩,-⟩ := place.formed formed
    exact here.owner r region

/- After a change that takes an operation out of its block and leaves the others in theirs. -/
theorem Sound.after (sound : g.Sound ids) (id : OpId) (formed : g'.WellFormed) (size : g.ops.size ≤ g'.ops.size)
    (gone : (g'.op id).block = none)
    (same : ∀ j, j < g.ops.size → j ≠ id → (g'.op j).block = (g.op j).block ∧ (g'.op j).region = (g.op j).region)
    (listed : ∀ c j, j ∈ (g.block c).ops → j ≠ id → j ∈ (g'.block c).ops)
    (owner : ∀ r j, (g.block r).owner = some j → j ≠ id → (g'.block r).owner = some j) : g'.Sound ids := by
  have other {j : OpId} (alive : (g'.op j).block.isSome = true) : j ≠ id := by
    rintro rfl
    rw [gone] at alive
    cases alive
  refine ⟨formed,fun j mem => (sound.within j mem).trans_le size,fun j mem b block => ?_,
    fun j mem alive r region => ?_⟩
  · have apart := other (by rw [block]; rfl)
    rw [(same j (sound.within j mem) apart).1] at block
    exact listed b j (sound.listed j mem b block) apart
  · have apart := other alive
    obtain ⟨block,region'⟩ := same j (sound.within j mem) apart
    rw [isAlive,block] at alive
    exact owner r j (sound.owner j mem alive r (region' ▸ region)) apart

theorem Scope.notListed {b c visible} (scope : g.Scope c visible) (formed : g.WellFormed)
    (block : (g.op id).block = some b) (other : c ≠ b) : id ∉ (g.block c).ops := fun mem =>
  other (Option.some.inj ((scope.block formed mem).symm.trans block))

theorem Scope.once {b visible} (scope : g.Scope b visible) (formed : g.WellFormed) : (g.block b).ops.Nodup := by
  obtain ⟨⟨_,-,inner⟩,-⟩ := scope.formed formed
  exact inner.1

theorem spliceAbsent {l : List OpId} (absent : id ∉ l) : (l.flatMap fun j => if j = id then ids else [j]) = l := by
  induction l with
  | nil => rfl
  | cons j l ih =>
    obtain ⟨here,later⟩ := not_or.mp (fun h => absent (mem_cons.mpr h))
    rw [flatMap_cons,ih later,if_neg (Ne.symm here),singleton_append]

theorem splicePresent {l pre post : List OpId} (split : l = pre ++ id :: post) (once : l.Nodup) :
    (l.flatMap fun j => if j = id then ids else [j]) = pre ++ ids ++ post := by
  subst split
  have apart := nodup_middle.mp once
  have before : id ∉ pre := fun mem => (nodup_cons.mp apart).1 (mem_append_left _ mem)
  have after : id ∉ post := fun mem => (nodup_cons.mp apart).1 (mem_append_right _ mem)
  rw [flatMap_append,flatMap_cons,spliceAbsent before,spliceAbsent after,if_pos rfl,append_assoc]

theorem spliceSame (o : Operation) : { o with operands := o.operands.map (Option.map fun v => v) } = o := by simp

def Carries (P : Value → Prop) (f : Value → Value) (scope scope' : List Value) : Prop :=
  ∀ v ∈ scope, P v → f v ∈ scope'

namespace Carries

variable {P : Value → Prop} {f : Value → Value} {scope scope' : List Value}

theorem append {more more'} (here : Carries P f scope scope') (there : Carries P f more (scope' ++ more')) :
    Carries P f (scope ++ more) (scope' ++ more') := by
  intro v mem needed
  rcases mem_append.mp mem with old | new
  · exact mem_append_left _ (here v old needed)
  · exact there v new needed

theorem mono (carries : Carries P f scope scope') (more : List Value) : Carries P f scope (scope' ++ more) :=
  fun v mem needed => mem_append_left _ (carries v mem needed)

end Carries

/-- The operation `id` makes room for the operations `ids`; values are renamed by `f` where they are used, and those
that are used satisfy `P`. -/
structure Splice (g g' : Graph) (id : OpId) (ids : List OpId) (P : Value → Prop) (f : Value → Value) : Prop where
  size : g.blocks.size ≤ g'.blocks.size
  args : ∀ c visible, g.Scope c visible → (g'.block c).args = (g.block c).args
  ops : ∀ c visible, g.Scope c visible → (g'.block c).ops = (g.block c).ops.flatMap fun j => if j = id then ids else [j]
  once : ∀ c visible, g.Scope c visible → (g'.block c).ops.Nodup
  old : ∀ c scope j, g.At c scope j → j ≠ id →
    g'.op j = { g.op j with operands := (g.op j).operands.map (Option.map f) }
  owner : ∀ c scope j, g.At c scope j → j ≠ id → ∀ r, (g.op j).region = some r → (g'.block r).owner = (g.block r).owner
  uses : ∀ c scope j, g.At c scope j → j ≠ id → ∀ w, some w ∈ (g.op j).operands → P w
  fixed : ∀ v, (∀ i, v ≠ .result id i) → f v = v
  here : ∀ c scope n, g.At c scope id → OpFormed g (g.Formed n) c scope id → ∀ scope', Carries P f scope scope' →
    (∀ r, (g.op id).region = some r → ∀ inner, Carries P f scope inner → g'.Formed n r inner) →
    OpsFormed g' (g'.Formed n) c scope' ids ∧ Carries P f (g.resultsOf id) (scope' ++ g'.computed ids)

namespace Splice

variable {g g' : Graph} {id : OpId} {ids : List OpId} {P : Value → Prop} {f : Value → Value}
  (splice : Splice g g' id ids P f)

include splice

theorem arguments {c visible} (scope : g.Scope c visible) : Carries P f (g.argumentsOf c) (g'.argumentsOf c) := by
  intro v mem _
  obtain ⟨i,lt,rfl⟩ := memArguments mem
  rw [splice.fixed _ (by simp),argumentsOf,splice.args c visible scope]
  exact mem

section Step

variable {c scope j n} (place : g.At c scope j) (formed : OpFormed g (g.Formed n) c scope j) {scope'}
  (carries : Carries P f scope scope')
  (regions : ∀ r, (g.op j).region = some r → ∀ inner, Carries P f scope inner → g'.Formed n r inner)

include place formed carries regions

/- An operation that stays is well formed where its operands are, under their new names. -/
theorem stays (other : j ≠ id) :
    OpsFormed g' (g'.Formed n) c scope' [j] ∧ Carries P f (g.resultsOf j) (scope' ++ g'.computed [j]) := by
  have same := splice.old c scope j place other
  refine ⟨⟨⟨?_,fun v mem => ?_,fun r region => ?_,fun r region => ?_⟩,trivial⟩,fun v mem _ => ?_⟩
  · rw [same]
    exact formed.block
  · rw [same] at mem
    obtain ⟨u,used,rfl⟩ := mem_map.mp mem
    obtain ⟨w,rfl,visible⟩ := formed.operands u used
    exact ⟨f w,rfl,carries w visible (splice.uses c scope j place other w used)⟩
  · rw [same] at region
    rw [splice.owner c scope j place other r region]
    exact formed.owner r region
  · rw [same] at region
    exact regions r region scope' carries
  · obtain ⟨i,lt,rfl⟩ := mem_map.mp mem
    have apart (k : Nat) : Value.result j i ≠ .result id k := fun h => other (by cases h; rfl)
    rw [splice.fixed _ apart,computedCons,resultsOf,same]
    exact mem_append_right _ (mem_append_left _ mem)

theorem step :
    OpsFormed g' (g'.Formed n) c scope' (if j = id then ids else [j]) ∧
      Carries P f (g.resultsOf j) (scope' ++ g'.computed (if j = id then ids else [j])) := by
  by_cases same : j = id
  · subst same
    rw [if_pos rfl]
    exact splice.here c scope n place formed scope' carries regions
  · rw [if_neg same]
    exact splice.stays place formed carries regions same

end Step

theorem formed {n b visible visible'} (formed : g.Formed n b visible) (scope : g.Scope b visible)
    (carries : Carries P f visible visible') : g'.Formed n b visible' := by
  induction n generalizing b visible visible' with
  | zero => cases formed
  | succ n ih =>
    refine ⟨splice.once b visible scope,?_⟩
    rw [splice.ops b visible scope]
    -- The operations after some of the block, where those before them are visible.
    have rest (pre post : List OpId) (whole : (g.block b).ops = pre ++ post) (scope' : List Value)
        (carries : Carries P f (visible ++ g.argumentsOf b ++ g.computed pre) scope') :
        OpsFormed g' (g'.Formed n) b scope' (post.flatMap fun j => if j = id then ids else [j]) := by
      induction post generalizing pre scope' with
      | nil => trivial
      | cons j post next =>
        have listed := formed.2
        rw [whole] at listed
        obtain ⟨here,results⟩ := splice.step ⟨visible,pre,post,scope,whole,rfl⟩ listed.at carries
          fun r region inner carries => ih (listed.at.region r region) (.region scope whole region) carries
        rw [flatMap_cons,opsFormedAppend]
        refine ⟨here,next (pre ++ [j]) (by simp [whole]) _ ?_⟩
        rw [computedAppend,← append_assoc,computedCons,computedNil,append_nil]
        exact carries.append results
    refine rest [] _ rfl _ ?_
    rw [computedNil,append_nil]
    refine carries.append fun v mem needed => mem_append_right _ ?_
    exact splice.arguments scope v mem needed

theorem wellFormed (formed : g.WellFormed) : g'.WellFormed :=
  (splice.formed formed .body fun _ none => nomatch none).le (Nat.add_le_add_right splice.size 1)

end Splice

end TileLower.Graph

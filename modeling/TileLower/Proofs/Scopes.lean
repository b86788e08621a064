import TileLower.Proofs.Edits
import TileLower.Proofs.Outcomes
import TileLower.Graph.Verify

/-!
What it means that a function is well formed: where operations stand, and which values they see. `verifyBlockOk`
says it of the check; `Formed` also asks that no block lists an operation twice.
-/
namespace TileLower.Graph

open Outcome List

variable {g : Graph}

theorem verifyOperandsOk {scope i j op vs} :
    verifyOperands scope i op j vs = .ok () ↔ ∀ v ∈ vs, ∃ w, v = some w ∧ w ∈ scope := by
  induction vs generalizing j with
  | nil => simp [verifyOperands]
  | cons v vs ih =>
    cases v with
    | none => simp [verifyOperands]
    | some w =>
      by_cases mem : w ∈ scope
      · simp [verifyOperands,mem,ih]
      · simp [verifyOperands,mem]

structure OpFormed (g : Graph) (region : BlockId → List Value → Prop) (b : BlockId) (scope : List Value)
    (id : OpId) : Prop where
  block : (g.op id).block = some b
  operands : ∀ v ∈ (g.op id).operands, ∃ w, v = some w ∧ w ∈ scope
  owner : ∀ r, (g.op id).region = some r → (g.block r).owner = some id
  region : ∀ r, (g.op id).region = some r → region r scope

theorem withinOk {message x} : within message x = .ok () ↔ x = .ok () := by
  unfold within
  split
  · simp
  · rfl

theorem verifyOpOk {region b i scope id} :
    verifyOp g region b i scope id = .ok () ↔ OpFormed g (fun r s => region r s = .ok ()) b scope id := by
  unfold verifyOp
  rw [checkOk (fun u => failOk),bindOk]
  constructor
  · rintro ⟨block,_,operands,ok⟩
    refine ⟨not_not.mp block,verifyOperandsOk.mp operands,fun r same => ?_,fun r same => ?_⟩
    · rw [same] at ok
      exact not_not.mp ((checkOk (fun u => failOk)).mp ok).1
    · rw [same] at ok
      exact withinOk.mp ((checkOk (fun u => failOk)).mp ok).2
  · intro formed
    refine ⟨not_not_intro formed.block,(),verifyOperandsOk.mpr formed.operands,?_⟩
    cases same : (g.op id).region with
    | none => rfl
    | some r =>
      exact (checkOk (fun u => failOk)).mpr
        ⟨not_not_intro (formed.owner r same),withinOk.mpr (formed.region r same)⟩

def computed (g : Graph) (ids : List OpId) : List Value := ids.flatMap g.resultsOf

@[simp] theorem computedAppend (ids js : List OpId) : g.computed (ids ++ js) = g.computed ids ++ g.computed js := by
  simp [computed]

@[simp] theorem computedCons (id : OpId) (ids : List OpId) : g.computed (id :: ids) = g.resultsOf id ++ g.computed ids :=
  rfl

@[simp] theorem computedNil : g.computed [] = [] := rfl

def OpsFormed (g : Graph) (region : BlockId → List Value → Prop) (b : BlockId) : List Value → List OpId → Prop
  | _, [] => True
  | scope, id :: rest => OpFormed g region b scope id ∧ OpsFormed g region b (scope ++ g.resultsOf id) rest

theorem verifyOpsOk {region b i scope ids} :
    verifyOps g region b i scope ids = .ok () ↔ OpsFormed g (fun r s => region r s = .ok ()) b scope ids := by
  induction ids generalizing i scope with
  | nil => simp [verifyOps,OpsFormed]
  | cons id ids ih =>
    rw [verifyOps,bindOk,OpsFormed]
    constructor
    · rintro ⟨_,here,rest⟩
      exact ⟨verifyOpOk.mp here,ih.mp rest⟩
    · rintro ⟨here,rest⟩
      exact ⟨(),verifyOpOk.mpr here,ih.mpr rest⟩

theorem verifyBlockOk {n b visible} : g.verifyBlock (n + 1) b visible = .ok () ↔
    OpsFormed g (fun r s => g.verifyBlock n r s = .ok ()) b (visible ++ g.argumentsOf b) (g.block b).ops := verifyOpsOk

section Lists

variable {region : BlockId → List Value → Prop} {b : BlockId} {scope : List Value}

theorem opsFormedAppend {pre post} : OpsFormed g region b scope (pre ++ post) ↔
    OpsFormed g region b scope pre ∧ OpsFormed g region b (scope ++ g.computed pre) post := by
  induction pre generalizing scope with
  | nil => simp [OpsFormed]
  | cons id pre ih => simp [OpsFormed,ih,and_assoc]

theorem OpsFormed.at {pre post id} (formed : OpsFormed g region b scope (pre ++ id :: post)) :
    OpFormed g region b (scope ++ g.computed pre) id := (opsFormedAppend.mp formed).2.1

theorem opsFormedOf {ids}
    (each : ∀ pre id post, ids = pre ++ id :: post → OpFormed g region b (scope ++ g.computed pre) id) :
    OpsFormed g region b scope ids := by
  induction ids generalizing scope with
  | nil => trivial
  | cons id ids ih =>
    refine ⟨by simpa using each [] id ids rfl,ih fun pre j post split => ?_⟩
    simpa using each (id :: pre) j post (by rw [split]; rfl)

theorem OpsFormed.imp {ids} {region' : BlockId → List Value → Prop} (formed : OpsFormed g region b scope ids)
    (weaker : ∀ r s, region r s → region' r s) : OpsFormed g region' b scope ids := by
  refine opsFormedOf fun pre id post split => ?_
  rw [split] at formed
  have here := formed.at
  exact ⟨here.block,here.operands,here.owner,fun r at_ => weaker _ _ (here.region r at_)⟩

end Lists

theorem memComputed {ids v} (mem : v ∈ g.computed ids) :
    ∃ id ∈ ids, ∃ i, i < (g.op id).results.length ∧ v = .result id i := by
  obtain ⟨id,here,mem⟩ := mem_flatMap.mp mem
  obtain ⟨i,lt,rfl⟩ := mem_map.mp mem
  exact ⟨id,here,i,mem_range.mp lt,rfl⟩

theorem memArguments {b v} (mem : v ∈ g.argumentsOf b) : ∃ i, i < (g.block b).args.length ∧ v = .argument b i := by
  obtain ⟨i,lt,rfl⟩ := mem_map.mp mem
  exact ⟨i,mem_range.mp lt,rfl⟩

theorem seenResult {visible ids b k i} (mem : .result k i ∈ visible ++ g.argumentsOf b ++ g.computed ids) :
    .result k i ∈ visible ∨ k ∈ ids ∧ i < (g.op k).results.length := by
  rcases mem_append.mp mem with mem | results
  · refine .inl ((mem_append.mp mem).resolve_right fun args => ?_)
    obtain ⟨_,-,same⟩ := memArguments args
    cases same
  · obtain ⟨_,inside,_,lt,same⟩ := memComputed results
    cases same
    exact .inr ⟨inside,lt⟩

theorem blockInside {id b} (block : (g.op id).block = some b) : id < g.ops.size := by
  by_contra outside
  rw [opOutside outside] at block
  cases block

theorem listedInside {b id} (mem : id ∈ (g.block b).ops) : b < g.blocks.size := by
  by_contra outside
  rw [blockOutside outside] at mem
  cases mem

theorem verifyBody (ok : g.verify = .ok ()) {pre post id} (split : (g.block body).ops = pre ++ id :: post) :
    OpFormed g (fun r s => g.verifyBlock g.blocks.size r s = .ok ()) body (g.argumentsOf body ++ g.computed pre) id := by
  have formed := verifyBlockOk.mp ok
  rw [split] at formed
  exact formed.at

def Formed (g : Graph) : Nat → BlockId → List Value → Prop
  | 0, _, _ => False
  | n + 1, b, visible =>
    (g.block b).ops.Nodup ∧ OpsFormed g (Formed g n) b (visible ++ g.argumentsOf b) (g.block b).ops

theorem Formed.verify {n b visible} (formed : g.Formed n b visible) : g.verifyBlock n b visible = .ok () := by
  induction n generalizing b visible with
  | zero => cases formed
  | succ n ih => exact verifyBlockOk.mpr (formed.2.imp fun _ _ => ih)

/- Where no operation is walked over twice, no block on the way lists one twice. -/
theorem formedOfVerify {n b visible} (ok : g.verifyBlock n b visible = .ok ()) (once : (g.walk n b).Nodup) :
    g.Formed n b visible := by
  induction n generalizing b visible with
  | zero => cases ok
  | succ n ih =>
    have listed := verifyBlockOk.mp ok
    rw [walk,nodup_flatMap] at once
    refine ⟨?_,opsFormedOf fun pre id post split => ?_⟩
    · refine once.2.imp fun {i j} apart same => ?_
      subst same
      exact apart (.head _) (.head _)
    · have mem : id ∈ (g.block b).ops := by simp [split]
      rw [split] at listed
      have here := listed.at
      refine ⟨here.block,here.operands,here.owner,fun r region => ih (here.region r region) ?_⟩
      have below := (nodup_cons.mp (once.1 id mem)).2
      simpa only [region] using below

theorem Formed.mono {n b visible} (formed : g.Formed n b visible) : g.Formed (n + 1) b visible := by
  induction n generalizing b visible with
  | zero => cases formed
  | succ n ih => exact ⟨formed.1,formed.2.imp fun _ _ => ih⟩

theorem Formed.le {m n b visible} (formed : g.Formed m b visible) (le : m ≤ n) : g.Formed n b visible := by
  induction le with
  | refl => exact formed
  | step _ ih => exact ih.mono

inductive Scope (g : Graph) : BlockId → List Value → Prop where
  | body : Scope g body []
  | region {b : BlockId} {visible : List Value} {pre post : List OpId} {id : OpId} {r : BlockId}
      (outer : Scope g b visible) (split : (g.block b).ops = pre ++ id :: post) (region : (g.op id).region = some r) :
      Scope g r (visible ++ g.argumentsOf b ++ g.computed pre)

def At (g : Graph) (b : BlockId) (scope : List Value) (id : OpId) : Prop :=
  ∃ visible pre post, Scope g b visible ∧ (g.block b).ops = pre ++ id :: post ∧
    scope = visible ++ g.argumentsOf b ++ g.computed pre

def WellFormed (g : Graph) : Prop := g.Formed (g.blocks.size + 1) body []

theorem wellFormedOfVerify (ok : g.verify = .ok ()) (once : g.walkAll.Nodup) : g.WellFormed := formedOfVerify ok once

theorem WellFormed.verify (formed : g.WellFormed) : g.verify = .ok () := Formed.verify formed

def Closed (g : Graph) (scope : List Value) : Prop :=
  ∀ id i, .result id i ∈ scope → ∀ v ∈ (g.op id).operands, ∃ w, v = some w ∧ w ∈ scope

theorem Closed.append {region b scope ids} (closed : Closed g scope) (formed : OpsFormed g region b scope ids) :
    Closed g (scope ++ g.computed ids) := by
  induction ids generalizing scope with
  | nil => simpa using closed
  | cons id ids ih =>
    obtain ⟨here,rest⟩ := formed
    have next : Closed g (scope ++ g.resultsOf id) := by
      intro j i mem v operand
      have inScope : ∃ w, v = some w ∧ w ∈ scope := by
        rcases mem_append.mp mem with old | new
        · exact closed j i old v operand
        · obtain ⟨k,-,same⟩ := mem_map.mp new
          cases same
          exact here.operands v operand
      obtain ⟨w,same,mem⟩ := inScope
      exact ⟨w,same,mem_append_left _ mem⟩
    simpa using ih next rest

theorem Closed.arguments {scope} (closed : Closed g scope) (b : BlockId) : Closed g (scope ++ g.argumentsOf b) := by
  intro j i mem v operand
  rcases mem_append.mp mem with old | new
  · obtain ⟨w,same,mem⟩ := closed j i old v operand
    exact ⟨w,same,mem_append_left _ mem⟩
  · obtain ⟨k,-,same⟩ := memArguments new
    cases same

theorem Scope.formed {b visible} (scope : Scope g b visible) (formed : g.WellFormed) :
    (∃ n, n ≤ g.blocks.size ∧ g.Formed (n + 1) b visible) ∧ Closed g visible := by
  induction scope with
  | body => exact ⟨⟨_,le_rfl,formed⟩,fun _ _ none => nomatch none⟩
  | region outer split region ih =>
    obtain ⟨⟨n,le,inner⟩,closed⟩ := ih
    have listed := inner.2
    rw [split] at listed
    have here := listed.at.region _ region
    refine ⟨?_,(closed.arguments _).append (opsFormedAppend.mp listed).1⟩
    cases n with
    | zero => cases here
    | succ n => exact ⟨n,Nat.le_of_succ_le le,here⟩

theorem At.formed {b scope id} (place : g.At b scope id) (formed : g.WellFormed) :
    (∃ n, n ≤ g.blocks.size ∧ OpFormed g (g.Formed n) b scope id) ∧ Closed g scope := by
  obtain ⟨visible,pre,post,outer,split,rfl⟩ := place
  obtain ⟨⟨n,le,inner⟩,closed⟩ := outer.formed formed
  have listed := inner.2
  rw [split] at listed
  exact ⟨⟨n,le,listed.at⟩,(closed.arguments _).append (opsFormedAppend.mp listed).1⟩

theorem At.sees {b scope id} (place : g.At b scope id) (formed : g.WellFormed) {v} (used : some v ∈ (g.op id).operands) :
    v ∈ scope := by
  obtain ⟨⟨_,-,here⟩,-⟩ := place.formed formed
  obtain ⟨_,same,visible⟩ := here.operands _ used
  cases same
  exact visible

theorem walkRegion {n b r pre post id} (split : (g.block b).ops = pre ++ id :: post) (region : (g.op id).region = some r)
    {j} (mem : j ∈ g.walk n r) : j ∈ g.walk (n + 1) b := by
  rw [walk,mem_flatMap]
  refine ⟨id,by simp [split],mem_cons_of_mem _ ?_⟩
  simpa only [region] using mem

theorem Scope.walked {b visible} (scope : Scope g b visible) (formed : g.WellFormed) :
    ∃ n, g.Formed (n + 1) b visible ∧ ∀ j ∈ g.walk (n + 1) b, j ∈ g.walkAll := by
  induction scope with
  | body => exact ⟨_,formed,fun _ mem => mem⟩
  | region outer split region ih =>
    obtain ⟨n,inner,all⟩ := ih
    have listed := inner.2
    rw [split] at listed
    have here := listed.at.region _ region
    cases n with
    | zero => cases here
    | succ n => exact ⟨n,here,fun j mem => all j (walkRegion split region mem)⟩

theorem bodyWalked {j} (mem : j ∈ (g.block body).ops) : j ∈ g.walkAll :=
  mem_flatMap.mpr ⟨j,mem,.head _⟩

theorem At.walked {b scope id} (place : g.At b scope id) (formed : g.WellFormed) : id ∈ g.walkAll := by
  obtain ⟨visible,pre,post,outer,split,-⟩ := place
  obtain ⟨n,-,all⟩ := outer.walked formed
  refine all id ?_
  rw [walk,mem_flatMap]
  exact ⟨id,by simp [split],.head _⟩

theorem atOfWalk {n b visible id} (scope : Scope g b visible) (mem : id ∈ g.walk n b) : ∃ c inner, g.At c inner id := by
  induction n generalizing b visible with
  | zero => cases mem
  | succ n ih =>
    obtain ⟨j,listed,mem⟩ := mem_flatMap.mp mem
    obtain ⟨pre,post,split⟩ := append_of_mem listed
    rcases mem_cons.mp mem with rfl | inner
    · exact ⟨b,_,visible,pre,post,scope,split,rfl⟩
    · cases region : (g.op j).region with
      | none => rw [region] at inner; cases inner
      | some r =>
        rw [region] at inner
        exact ih (.region scope split region) inner

inductive Inside (g : Graph) : BlockId → BlockId → Prop where
  | here {b r : BlockId} {id : OpId} (mem : id ∈ (g.block b).ops) (region : (g.op id).region = some r) : Inside g b r
  | deeper {b c r : BlockId} {id : OpId} (outer : Inside g b c) (mem : id ∈ (g.block c).ops)
      (region : (g.op id).region = some r) : Inside g b r

theorem Inside.formed {b c} (inside : Inside g b c) {n visible} (formed : g.Formed n b visible) :
    ∃ m scope, m < n ∧ g.Formed m c scope := by
  have step {n : Nat} {b r : BlockId} {visible : List Value} {id : OpId} (formed : g.Formed n b visible)
      (mem : id ∈ (g.block b).ops) (region : (g.op id).region = some r) : ∃ m scope, m < n ∧ g.Formed m r scope := by
    cases n with
    | zero => cases formed
    | succ n =>
      obtain ⟨pre,post,split⟩ := append_of_mem mem
      have listed := formed.2
      rw [split] at listed
      exact ⟨n,_,Nat.lt_succ_self n,listed.at.region r region⟩
  induction inside with
  | here mem region => exact step formed mem region
  | deeper outer mem region ih =>
    obtain ⟨m,scope,lt,inner⟩ := ih
    obtain ⟨k,scope,lt',inner⟩ := step inner mem region
    exact ⟨k,scope,lt'.trans lt,inner⟩

theorem Inside.irrefl {b n visible} (formed : g.Formed n b visible) : ¬ Inside g b b := by
  intro inside
  induction n using Nat.strong_induction_on generalizing visible with
  | _ n ih =>
    obtain ⟨m,scope,lt,inner⟩ := inside.formed formed
    exact ih m lt inner

theorem Scope.origin {b visible} (scope : Scope g b visible) {id i} (mem : .result id i ∈ visible) :
    ∃ c around, Scope g c around ∧ id ∈ (g.block c).ops ∧ Inside g c b := by
  induction scope with
  | body => cases mem
  | @region b visible pre post j r outer split region ih =>
    have listed : j ∈ (g.block b).ops := by simp [split]
    rcases seenResult mem with old | ⟨before,-⟩
    · obtain ⟨c,around,scope,here,inside⟩ := ih old
      exact ⟨c,around,scope,here,.deeper inside listed region⟩
    · exact ⟨b,visible,outer,by simp [split,before],.here listed region⟩

theorem Scope.block {b visible} (scope : Scope g b visible) (formed : g.WellFormed) {id} (mem : id ∈ (g.block b).ops) :
    (g.op id).block = some b := by
  obtain ⟨pre,post,split⟩ := append_of_mem mem
  obtain ⟨⟨_,-,here⟩,-⟩ := At.formed ⟨visible,pre,post,scope,split,rfl⟩ formed
  exact here.block

theorem At.fresh {b scope id} (place : g.At b scope id) (formed : g.WellFormed) (i : Nat) : .result id i ∉ scope := by
  obtain ⟨visible,pre,post,outer,split,rfl⟩ := place
  obtain ⟨⟨n,-,inner⟩,-⟩ := outer.formed formed
  have listed : id ∈ (g.block b).ops := by simp [split]
  have block := outer.block formed listed
  intro mem
  rcases seenResult mem with old | ⟨before,-⟩
  · -- An operation names one block only, so the block around this one would be this one.
    obtain ⟨c,_,scope,listed,inside⟩ := outer.origin old
    have same : c = b := Option.some.inj ((scope.block formed listed).symm.trans block)
    exact Inside.irrefl inner (same ▸ inside)
  · have once := inner.1
    rw [split] at once
    exact disjoint_of_nodup_append once before (.head _)

end TileLower.Graph

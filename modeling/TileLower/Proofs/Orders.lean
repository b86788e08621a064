import TileLower.Proofs.Commits

/-!
Operations in an order in which each one stands behind those whose results it uses. A commit puts new operations
before the one that it replaces: `Stages.orders`.
-/
namespace TileLower

open List Ready

namespace Graph

variable {g g' : Graph} {seen seen' order pre post : List OpId} {id : OpId} {b : BlockId}

theorem insertBeforeMem {anchor ids c j} (mem : j ∈ ((g.insertBefore b anchor ids).block c).ops) :
    j ∈ (g.block c).ops ∨ c = b ∧ j ∈ ids := by
  rw [insertBefore,modifyBlockAt,placeInBlock] at mem
  split at mem
  · rename_i here
    simp only [mem_append] at mem
    rcases mem with (before | new) | after
    · exact .inl (mem_of_mem_take before)
    · exact .inr ⟨here.1,new⟩
    · exact .inl (mem_of_mem_drop after)
  · exact .inl mem

theorem insertBeforeNew {anchor ids j} (within : b < g.blocks.size) (mem : j ∈ ids) :
    j ∈ ((g.insertBefore b anchor ids).block b).ops := by
  rw [insertBefore,modifyBlockAt,placeInBlock,if_pos ⟨rfl,by simpa using within⟩]
  simp [mem]

theorem eraseFrame (g : Graph) (b : BlockId) (id j : OpId) :
    ∃ block, (g.erase b id).op j = { g.op j with block } := by
  unfold erase
  split
  · rw [modifyOpAt,modifyBlockOp]
    split
    · exact ⟨_,rfl⟩
    · exact ⟨_,rfl⟩
  · exact ⟨_,rfl⟩

theorem eraseMem (g : Graph) (b : BlockId) (id : OpId) {c j} :
    (j ∈ ((g.erase b id).block c).ops → j ∈ (g.block c).ops) ∧
      (j ≠ id → j ∈ (g.block c).ops → j ∈ ((g.erase b id).block c).ops) := by
  rw [eraseBlock]
  split
  · exact ⟨mem_of_mem_erase,fun other mem => (mem_erase_of_ne other).mpr mem⟩
  · exact ⟨fun mem => mem,fun _ mem => mem⟩

def Sorted (g : Graph) : List OpId → List OpId → Prop
  | _, [] => True
  | seen, j :: rest => (∀ k i, some (.result k i) ∈ (g.op j).operands → k ∈ seen) ∧ Sorted g (seen ++ [j]) rest

theorem sortedAppend : Sorted g seen (pre ++ post) ↔ Sorted g seen pre ∧ Sorted g (seen ++ pre) post := by
  induction pre generalizing seen with
  | nil => simp [Sorted]
  | cons j pre ih => simp only [cons_append,Sorted,ih,and_assoc,append_assoc,nil_append]

theorem sortedOf (uses : ∀ pre j post, order = pre ++ j :: post → ∀ k i, some (.result k i) ∈ (g.op j).operands →
    k ∈ seen ++ pre) : Sorted g seen order := by
  induction order generalizing seen with
  | nil => trivial
  | cons j order ih =>
    refine ⟨fun k i used => by simpa using uses [] j order rfl k i used,ih fun pre l post split k i used => ?_⟩
    have later := uses (j :: pre) l post (by rw [split]; rfl) k i used
    simpa using later

theorem Sorted.transfer (sorted : Sorted g seen order) (sub : ∀ k ∈ seen, k ∈ seen')
    (uses : ∀ j ∈ order, ∀ k i, some (.result k i) ∈ (g'.op j).operands →
      (∃ i, some (.result k i) ∈ (g.op j).operands) ∨ k ∈ seen') : Sorted g' seen' order := by
  induction order generalizing seen seen' with
  | nil => trivial
  | cons j order ih =>
    obtain ⟨here,later⟩ := sorted
    obtain ⟨now,then_⟩ := forall_mem_cons.mp uses
    refine ⟨fun k i used => ?_,ih later (fun k mem => ?_) fun l mem k i used => ?_⟩
    · rcases now k i used with ⟨i,old⟩ | new
      · exact sub k (here k i old)
      · exact new
    · simp only [mem_append] at mem ⊢
      exact mem.imp_left (sub k)
    · exact (then_ l mem k i used).imp_right fun mem => mem_append_left _ mem

theorem walkWithin {K : OpId → Prop} (regions : ∀ i, K i → ∀ r, (g.op i).region = some r → ∀ j ∈ (g.block r).ops, K j)
    (inside : ∀ i ∈ (g.block b).ops, K i) (n : Nat) : ∀ j ∈ g.walk n b, K j := by
  induction n generalizing b with
  | zero => exact nofun
  | succ n ih =>
    intro j mem
    obtain ⟨i,listed,mem⟩ := mem_flatMap.mp mem
    rcases mem_cons.mp mem with rfl | deeper
    · exact inside j listed
    · cases region : (g.op i).region with
      | none =>
        rw [region] at deeper
        cases deeper
      | some r =>
        rw [region] at deeper
        exact ih (regions i (inside i listed) r region) j deeper

structure Ordered (g : Graph) (order : List OpId) : Prop where
  once : order.Nodup
  within : ∀ j ∈ order, j < g.ops.size
  body : ∀ j ∈ (g.block body).ops, j ∈ order
  regions : ∀ j ∈ order, ∀ r, (g.op j).region = some r → ∀ i ∈ (g.block r).ops, i ∈ order
  listed : ∀ j ∈ order, ∀ b, (g.op j).block = some b → j ∈ (g.block b).ops
  sorted : Sorted g [] order

namespace Ordered

variable (ordered : Ordered g order)

include ordered

theorem walks {j} (mem : j ∈ g.walkAll) : j ∈ order := walkWithin ordered.regions ordered.body _ j mem

theorem erased (here : (g.op id).block = some b) (mem : id ∈ order) : Ordered (g.erase b id) order where
  once := ordered.once
  within j mem := by
    rw [eraseSize]
    exact ordered.within j mem
  body j mem := ordered.body j ((g.eraseMem b id).1 mem)
  regions j mem r region i inside := by
    obtain ⟨block,same⟩ := g.eraseFrame b id j
    rw [same] at region
    exact ordered.regions j mem r region i ((g.eraseMem b id).1 inside)
  listed j mem' c block := by
    by_cases same : j = id
    · subst same
      rw [g.eraseHere b j (ordered.listed j mem b here)] at block
      cases block
    · rw [g.eraseOther b id same] at block
      exact (g.eraseMem b id).2 same (ordered.listed j mem' c block)
  sorted := ordered.sorted.transfer (fun _ mem => mem) fun j _ k i used => by
    obtain ⟨block,same⟩ := g.eraseFrame b id j
    rw [same] at used
    exact .inl ⟨i,used⟩

variable (split : order = pre ++ id :: post)

include split

theorem before (j : OpId) (mem : j ∈ pre ∨ j = id) (k i : Nat) (used : some (.result k i) ∈ (g.op j).operands) :
    k ∈ pre := by
  have sorted := ordered.sorted
  rw [split] at sorted
  rcases mem with mem | rfl
  · obtain ⟨left,right,rfl⟩ := append_of_mem mem
    rw [append_assoc,sortedAppend] at sorted
    have here := sorted.2.1 k i used
    rw [nil_append] at here
    exact mem_append_left _ here
  · rw [sortedAppend] at sorted
    simpa using sorted.2.1 k i used

theorem notBefore : id ∉ pre := by
  have once := ordered.once
  rw [split] at once
  exact fun mem => (nodup_append.mp once).2.2 id mem id (.head _) rfl

theorem notBehind : id ∉ post := by
  have once := ordered.once
  rw [split] at once
  exact (nodup_cons.mp (nodup_append.mp once).2.1).1

theorem unused (i : Nat) : some (.result id i) ∉ (g.op id).operands :=
  fun used => ordered.notBefore split (ordered.before split id (.inr rfl) id i used)

end Ordered

/- The walk over a function that passes the check is sorted, though it may come to an operation more than once. -/
section Verified

def Covers (seen : List OpId) (scope : List Value) : Prop := ∀ k i, .result k i ∈ scope → k ∈ seen

theorem Covers.step {scope} (covers : Covers seen scope) (j : OpId) (more : List OpId) :
    Covers (seen ++ (j :: more)) (scope ++ g.resultsOf j) := by
  intro k i mem
  rcases mem_append.mp mem with old | new
  · exact mem_append_left _ (covers k i old)
  · obtain ⟨_,-,same⟩ := mem_map.mp new
    cases same
    simp

theorem walkSorted {n visible} (ok : g.verifyBlock n b visible = .ok ()) (covers : Covers seen visible) :
    Sorted g seen (g.walk n b) := by
  induction n generalizing b visible seen with
  | zero => trivial
  | succ n ih =>
    have formed := verifyBlockOk.mp ok
    have known : Covers seen (visible ++ g.argumentsOf b) := by
      intro k i mem
      rcases mem_append.mp mem with old | args
      · exact covers k i old
      · obtain ⟨_,-,same⟩ := memArguments args
        cases same
    rw [walk]
    clear covers ok
    generalize visible ++ g.argumentsOf b = scope at formed known
    generalize (g.block b).ops = ids at formed
    induction ids generalizing seen scope with
    | nil => trivial
    | cons j ids ih' =>
      obtain ⟨here,later⟩ := formed
      rw [flatMap_cons,cons_append]
      refine ⟨fun k i used => ?_,sortedAppend.mpr ⟨?_,?_⟩⟩
      · obtain ⟨w,same,visible⟩ := here.operands _ used
        cases same
        exact known k i visible
      · cases region : (g.op j).region with
        | none => trivial
        | some r => exact ih (here.region r region) fun k i mem => mem_append_left _ (known k i mem)
      · refine ih' _ ?_ later
        rw [append_assoc]
        exact known.step j _

def Defined (g : Graph) : Value → Prop
  | .result k i => k ∈ g.walkAll ∧ i < (g.op k).results.length
  | .argument c i => i < (g.block c).args.length

theorem walkFormed {n visible} (ok : g.verifyBlock n b visible = .ok ()) (inside : ∀ i ∈ g.walk n b, i ∈ g.walkAll)
    (seen : ∀ w ∈ visible, g.Defined w) {j} (mem : j ∈ g.walk n b) :
    ∃ m c scope, OpFormed g (fun r s => g.verifyBlock m r s = .ok ()) c scope j ∧ j ∈ (g.block c).ops ∧
      (∀ r, (g.op j).region = some r → ∀ i ∈ g.walk m r, i ∈ g.walkAll) ∧ ∀ w ∈ scope, g.Defined w := by
  induction n generalizing b visible with
  | zero => cases mem
  | succ n ih =>
    have formed := verifyBlockOk.mp ok
    obtain ⟨l,listed,mem⟩ := mem_flatMap.mp mem
    obtain ⟨pre,post,split⟩ := append_of_mem listed
    rw [split] at formed
    have here := formed.at
    have deeper (r : BlockId) (region : (g.op l).region = some r) (i : OpId) (within : i ∈ g.walk n r) : i ∈ g.walkAll := by
      refine inside i (mem_flatMap.mpr ⟨l,listed,.tail _ ?_⟩)
      rw [region]
      exact within
    have known (w : Value) (visible : w ∈ visible ++ g.argumentsOf b ++ g.computed pre) : g.Defined w := by
      simp only [mem_append] at visible
      rcases visible with (old | argument) | result
      · exact seen w old
      · obtain ⟨i,lt,rfl⟩ := memArguments argument
        exact lt
      · obtain ⟨k,before,result⟩ := mem_flatMap.mp result
        obtain ⟨i,lt,rfl⟩ := mem_map.mp result
        refine ⟨inside k (mem_flatMap.mpr ⟨k,?_,.head _⟩),mem_range.mp lt⟩
        rw [split]
        exact mem_append_left _ before
    rcases mem_cons.mp mem with rfl | inner
    · exact ⟨n,b,_,here,listed,deeper,known⟩
    · cases region : (g.op l).region with
      | none =>
        rw [region] at inner
        cases inner
      | some r =>
        rw [region] at inner
        exact ih (here.region r region) (deeper r region) known inner

section Verified

variable (ok : g.verify = .ok ()) {j : OpId} (mem : j ∈ g.walkAll)

include ok mem

theorem walkListed : (∃ c, (g.op j).block = some c ∧ j ∈ (g.block c).ops) ∧
    ∀ r, (g.op j).region = some r → ∀ i ∈ (g.block r).ops, i ∈ g.walkAll := by
  obtain ⟨m,c,_,here,listed,deeper,-⟩ := walkFormed ok (fun _ mem => mem) nofun mem
  refine ⟨⟨c,here.block,listed⟩,fun r region i inside => deeper r region i ?_⟩
  have checked := here.region r region
  cases m with
  | zero => cases checked
  | succ m => exact mem_flatMap.mpr ⟨i,inside,.head _⟩

theorem operandsDefined : ∀ v ∈ (g.op j).operands, ∃ w, v = some w ∧ g.Defined w := by
  intro v used
  obtain ⟨_,_,_,here,-,-,known⟩ := walkFormed ok (fun _ mem => mem) nofun mem
  obtain ⟨w,same,visible⟩ := here.operands v used
  exact ⟨w,same,known w visible⟩

theorem walkOwned {r} (region : (g.op j).region = some r) : (g.block r).owner = some j := by
  obtain ⟨_,_,_,here,-⟩ := walkFormed ok (fun _ mem => mem) nofun mem
  exact here.owner r region

end Verified

theorem sortedOnce (sorted : Sorted g [] order) :
    ∃ once : List OpId, once.Nodup ∧ (∀ j, j ∈ once ↔ j ∈ order) ∧ Sorted g [] once := by
  induction order using reverseRecOn with
  | nil => exact ⟨[],nodup_nil,fun _ => Iff.rfl,trivial⟩
  | append_singleton order j ih =>
    obtain ⟨before,here,-⟩ := sortedAppend.mp sorted
    obtain ⟨once,nodup,same,sorted⟩ := ih before
    by_cases mem : j ∈ order
    · refine ⟨once,nodup,fun k => ?_,sorted⟩
      rw [same,mem_append,mem_singleton]
      exact ⟨.inl,fun known => known.elim (fun mem => mem) fun eq => eq ▸ mem⟩
    · refine ⟨once ++ [j],?_,fun k => by simp [same],sortedAppend.mpr ⟨sorted,fun k i used => ?_,trivial⟩⟩
      · rw [nodup_append]
        refine ⟨nodup,nodup_singleton j,fun k listed l single eq => mem ?_⟩
        rw [← mem_singleton.mp single,← eq]
        exact (same k).mp listed
      · have early := here k i used
        rw [nil_append] at early ⊢
        exact (same k).mpr early

theorem orderedOfVerify (ok : g.verify = .ok ()) : ∃ order, g.Ordered order := by
  obtain ⟨order,once,same,sorted⟩ := sortedOnce (walkSorted ok (nofun : Covers [] []))
  have mem {j : OpId} : j ∈ order ↔ j ∈ g.walkAll := same j
  refine ⟨order,once,fun j listed => ?_,fun j listed => ?_,fun j listed r region i inside => ?_,fun j listed c block => ?_,
    sorted⟩
  · obtain ⟨⟨c,block,-⟩,-⟩ := walkListed ok (mem.mp listed)
    exact blockInside block
  · exact mem.mpr (mem_flatMap.mpr ⟨j,listed,.head _⟩)
  · exact mem.mpr ((walkListed ok (mem.mp listed)).2 r region i inside)
  · obtain ⟨⟨c',block',inside⟩,-⟩ := walkListed ok (mem.mp listed)
    cases block.symm.trans block'
    exact inside

end Verified

end Graph

theorem renameFromCases (id : OpId) (k : Nat) (vs : List Value) (w : Value) :
    renameFrom id k vs w = w ∨ (∃ i, w = .result id i) ∧ renameFrom id k vs w ∈ vs := by
  cases w with
  | argument b i => exact .inl rfl
  | result j i =>
    rw [renameFrom]
    split
    · rename_i here
      obtain ⟨rfl,le⟩ := here
      by_cases inside : i - k < vs.length
      · refine .inr ⟨⟨i,rfl⟩,?_⟩
        rw [getD_eq_getElem _ _ inside]
        exact getElem_mem inside
      · exact .inl (getD_eq_default _ _ (Nat.le_of_not_lt inside))
    · exact .inl rfl

def Before (pre : List OpId) (v : Operand) : Prop := ∀ k i, v = some (.result k i) → k ∈ pre

namespace Graph.Ordered

variable {g : Graph} {order pre post : List OpId} {id : OpId} (ordered : g.Ordered order) (split : order = pre ++ id :: post)

include ordered split

theorem sight : Sight g id (Before pre) where
  within := ordered.within id (by simp [split])
  operands v mem k i same := ordered.before split id (.inr rfl) k i (same ▸ mem)
  closed j i seen v mem k l same := ordered.before split j (.inl (seen j i rfl)) k l (same ▸ mem)

theorem below (v : Value) (seen : Before pre (some v)) : v.Below g.ops.size := by
  cases v with
  | result k i => exact ordered.within k (by simp [split,seen k i rfl])
  | argument b i => trivial

end Graph.Ordered

structure Stages (g : Graph) (id : OpId) (pre : List OpId) (ops : List Operation) (target : Option OpId)
    (vals : List Value) (d : Draft) : Prop extends Ready g id (Before pre) target vals d where
  graph : d.graph = g.pushAll ops
  made : d.created = range' g.ops.size ops.length
  bare : ∀ o ∈ ops, o.region = none

namespace Stages

open TileLower.Graph

variable {g : Graph} {order pre post : List OpId} {id : OpId} {ops : List Operation} {target : Option OpId}
  {vals : List Value} {d : Draft} {b : BlockId} (stages : Stages g id pre ops target vals d) (ordered : g.Ordered order)
  (split : order = pre ++ id :: post) (block : (g.op id).block = some b)

include stages

theorem newAt {k} (mem : k ∈ d.created) : ∃ m o, k = g.ops.size + m ∧ ops[m]? = some o ∧ d.graph.op k = o := by
  rw [stages.made,mem_range'_1] at mem
  obtain ⟨m,rfl⟩ := Nat.exists_eq_add_of_le mem.1
  have at_ := getElem?_eq_getElem (Nat.lt_of_add_lt_add_left mem.2)
  exact ⟨m,_,rfl,at_,by rw [stages.graph,g.pushAllNew ops at_]⟩

theorem graphAfter (block : (g.op id).block = some b) (whole : (d.commit id).fault = none) :
    (d.commit id).graph = committed d id b target vals := by
  rcases stages.toReady.commitCases block with ⟨done,-⟩ | ⟨broken,-⟩
  · rw [done]
    rfl
  · rw [whole] at broken
    cases broken

include ordered split

theorem apart : ∀ v ∈ vals, ∀ i, v ≠ .result id i := by
  rintro _ mem i rfl
  rcases stages.known _ mem with seen | new
  · exact ordered.notBefore split (seen id i rfl)
  · exact stages.toReady.newResult (fun k mem => (stages.new k mem).1) i new

include block

theorem afterOther {j} (old : j < g.ops.size) (other : j ≠ id) : ∃ operands,
    (committed d id b target vals).op j = { g.op j with operands } ∧
      (operands = (g.op j).operands ∨ operands = (g.op j).operands.map (Option.map (renameFrom id 0 vals))) := by
  rw [stages.toReady.committedOp block stages.aim other,
    Draft.replaceResultsOp _ _ _ _ (stages.apart ordered split),stages.toReady.insertedOld stages.aim old other]
  split
  · exact ⟨_,rfl,.inr rfl⟩
  · exact ⟨_,rfl,.inl rfl⟩

theorem afterBefore {j} (mem : j ∈ pre) : (committed d id b target vals).op j = g.op j := by
  have other : j ≠ id := fun same => ordered.notBefore split (same ▸ mem)
  obtain ⟨operands,same,rfl | rfl⟩ :=
    stages.afterOther ordered split block (ordered.within j (by simp [split,mem])) other
  · exact same
  · have kept : (g.op j).operands.map (Option.map (renameFrom id 0 vals)) = (g.op j).operands := by
      conv_rhs => rw [← map_id (g.op j).operands]
      refine map_congr_left fun v used => ?_
      cases v with
      | none => rfl
      | some v =>
        refine congrArg some (renameFromOther (fun i same => ?_) 0 vals)
        exact ordered.notBefore split (ordered.before split j (.inl mem) id i (same ▸ used))
    rw [same,kept]

omit ordered split in
theorem afterAnchor (ordered : g.Ordered order) (split : order = pre ++ id :: post) : ∃ region,
    (committed d id b target vals).op id = { g.op id with region, block := none } ∧
      (region = (g.op id).region ∨ region = none) := by
  have unused (i : Nat) : some (.result id i) ∉ ((Ready.inserted d id b target).op id).operands := by
    rw [stages.toReady.insertedAnchor stages.aim]
    exact ordered.unused split i
  have same := Draft.replaceResultsUnused (Ready.inserted d id b target) id 0 (vals.map some) unused
  obtain ⟨block',erased⟩ := Graph.eraseFrame (Draft.replaceResults (Ready.inserted d id b target) id 0 (vals.map some)) b id id
  have listed : id ∈ ((Draft.replaceResults (Ready.inserted d id b target) id 0 (vals.map some)).block b).ops := by
    rw [Graph.block,Draft.replaceResultsBlocks]
    change id ∈ ((Ready.inserted d id b target).block b).ops
    rw [insertedOps]
    refine insertBeforeKeeps _ _ _ _ ?_
    rw [stages.graph,pushAllBlock]
    exact ordered.listed id (by simp [split]) b block
  have gone := eraseHere _ b id listed
  rw [stages.toReady.committedErase block stages.aim,erased]
  rw [erased] at gone
  obtain rfl : block' = none := gone
  rw [same,stages.toReady.insertedAnchor stages.aim]
  refine ⟨_,rfl,?_⟩
  split
  · exact .inr rfl
  · exact .inl rfl

theorem afterNew {k} (mem : k ∈ d.created) : (committed d id b target vals).op k =
    { d.graph.op k with block := some b, region := if target = some k then (g.op id).region else none } := by
  obtain ⟨m,o,rfl,at_,here⟩ := stages.newAt mem
  have new := (stages.new _ mem).1
  have other : g.ops.size + m ≠ id := fun same => Nat.not_lt_of_le new (same ▸ stages.within)
  have inserted := stages.toReady.insertedNew (b := b) stages.aim new
  rw [if_pos mem,here,stages.bare o (mem_of_getElem? at_)] at inserted
  have unused (i : Nat) : some (.result id i) ∉ ((Ready.inserted d id b target).op (g.ops.size + m)).operands := by
    rw [inserted]
    intro used
    obtain ⟨left,right,created⟩ := append_of_mem mem
    rcases stages.operands left _ right created _ (here ▸ used) with seen | ⟨w,same,computed⟩
    · exact ordered.notBefore split (seen id i rfl)
    · cases same
      exact stages.toReady.newResult (fun k mem => (stages.new k (created ▸ mem_append_left _ mem)).1) i computed
  rw [stages.toReady.committedOp block stages.aim other,
    Draft.replaceResultsUnused (Ready.inserted d id b target) id 0 (vals.map some) unused,inserted,here]

theorem blockAfter {c j} :
    (j ∈ ((committed d id b target vals).block c).ops → j ∈ (g.block c).ops ∨ c = b ∧ j ∈ d.created) ∧
      (j ≠ id → j ∈ (g.block c).ops ∨ c = b ∧ j ∈ d.created →
        j ∈ ((committed d id b target vals).block c).ops) := by
  have same : ((Ready.inserted d id b target).block c).ops = ((g.pushAll ops).insertBefore b (some id) d.created |>.block c).ops := by
    rw [insertedOps,stages.graph]
  have home : b < g.blocks.size := listedInside (ordered.listed id (by simp [split]) b block)
  have inside : j ∈ ((Ready.inserted d id b target).block c).ops ↔ j ∈ (g.block c).ops ∨ c = b ∧ j ∈ d.created := by
    rw [same]
    refine ⟨insertBeforeMem,fun mem => ?_⟩
    rcases mem with old | ⟨rfl,new⟩
    · exact insertBeforeKeeps _ _ _ _ old
    · exact insertBeforeNew home new
  rw [stages.toReady.committedBlock block stages.aim]
  split
  · exact ⟨fun mem => inside.mp (mem_of_mem_erase mem),fun other mem => (mem_erase_of_ne other).mpr (inside.mpr mem)⟩
  · exact ⟨inside.mp,fun _ => inside.mpr⟩

theorem orders : (committed d id b target vals).Ordered (pre ++ (d.created ++ id :: post)) := by
  have once := ordered.once
  rw [split] at once
  have size : (committed d id b target vals).ops.size = g.ops.size + ops.length := by
    rw [stages.toReady.committedErase block stages.aim,eraseSize,Draft.replaceResultsSize,insertedSize,stages.graph,
      pushAllSize]
  have inside {j : OpId} : j ∈ pre ++ (d.created ++ id :: post) ↔ j ∈ order ∨ j ∈ d.created := by
    simp only [split,mem_append,mem_cons]
    tauto
  have old {j : OpId} (mem : j ∈ order) := ordered.within j mem
  have fresh {j : OpId} (mem : j ∈ order) : j ∉ d.created := fun new => Nat.not_lt_of_le (stages.new j new).1 (old mem)
  have mem : id ∈ order := by simp [split]
  have kept {j : OpId} (mem : j ∈ order) (other : j ≠ id) := stages.afterOther ordered split block (old mem) other
  refine ⟨?_,fun j mem => ?_,fun j mem => ?_,fun j mem r region i inner => ?_,fun j mem c here => ?_,?_⟩
  · rw [nodup_append] at once ⊢
    refine ⟨once.1,nodup_append.mpr ⟨stages.once,once.2.1,?_⟩,?_⟩
    · rintro j new _ later rfl
      exact fresh (by rw [split]; exact mem_append_right _ later) new
    · rintro j early _ later rfl
      rcases mem_append.mp later with new | later
      · exact fresh (by simp [split,early]) new
      · exact once.2.2 j early j later rfl
  · rw [size]
    rcases inside.mp mem with here | new
    · exact Nat.lt_add_right _ (old here)
    · have below := (stages.new j new).2
      rwa [stages.graph,pushAllSize] at below
  · refine inside.mpr (((stages.blockAfter ordered split block).1 mem).imp (ordered.body j) And.right)
  · have listed := (stages.blockAfter ordered split block).1 inner
    refine inside.mpr (listed.imp (fun listed => ?_) And.right)
    rcases inside.mp mem with here | new
    · by_cases same : j = id
      · subst same
        obtain ⟨region',op,known⟩ := stages.afterAnchor block ordered split
        rw [op] at region
        rcases known with rfl | rfl
        · exact ordered.regions j here r region i listed
        · cases region
      · obtain ⟨operands,op,-⟩ := kept here same
        rw [op] at region
        exact ordered.regions j here r region i listed
    · rw [stages.afterNew ordered split block new] at region
      dsimp only at region
      split at region
      · exact ordered.regions id (by simp [split]) r region i listed
      · cases region
  · by_cases same : j = id
    · subst same
      obtain ⟨region',op,-⟩ := stages.afterAnchor block ordered split
      rw [op] at here
      cases here
    · refine (stages.blockAfter ordered split block).2 same ?_
      rcases inside.mp mem with present | new
      · obtain ⟨operands,op,-⟩ := kept present same
        rw [op] at here
        exact .inl (ordered.listed j present c here)
      · rw [stages.afterNew ordered split block new] at here
        cases here
        exact .inr ⟨rfl,new⟩
  · have sorted := ordered.sorted
    rw [split,sortedAppend] at sorted
    obtain ⟨first,anchor,later⟩ := sorted
    rw [nil_append] at anchor later
    rw [sortedAppend,sortedAppend]
    refine ⟨first.transfer (fun _ mem => mem) fun j mem k i used => ?_,sortedOf fun left j right created k i used => ?_,?_,?_⟩
    · rw [stages.afterBefore ordered split block mem] at used
      exact .inl ⟨i,used⟩
    · have new : j ∈ d.created := by simp [created]
      rw [stages.afterNew ordered split block new] at used
      rw [nil_append]
      rcases stages.operands left j right created _ used with seen | ⟨w,same,computed⟩
      · exact mem_append_left _ (seen k i rfl)
      · cases same
        obtain ⟨k',mem,_,-,same⟩ := memComputed computed
        cases same
        exact mem_append_right _ mem
    · intro k i used
      obtain ⟨region',op,-⟩ := stages.afterAnchor block ordered split
      rw [op] at used
      exact mem_append_left _ (by simpa using anchor k i used)
    · refine later.transfer (fun k mem => ?_) fun j mem k i used => ?_
      · simp only [mem_append,nil_append] at mem ⊢
        tauto
      · have other : j ≠ id := fun same => ordered.notBehind split (same ▸ mem)
        obtain ⟨operands,op,rfl | rfl⟩ := kept (by rw [split]; simp [mem]) other
        · rw [op] at used
          exact .inl ⟨i,used⟩
        · rw [op] at used
          obtain ⟨v,mem,same⟩ := mem_map.mp used
          cases v with
          | none => cases same
          | some v =>
            have same : renameFrom id 0 vals v = .result k i := Option.some.inj same
            rcases renameFromCases id 0 vals v with kept | ⟨-,val⟩
            · exact .inl ⟨i,by rwa [← same,kept]⟩
            · rw [same] at val
              refine .inr ?_
              rcases stages.known _ val with seen | computed
              · simp [seen k i rfl]
              · obtain ⟨k',new,_,-,same⟩ := memComputed computed
                cases same
                simp [new]

end Stages

end TileLower

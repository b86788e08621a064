import TileLower.Proofs.Declines
import TileLower.Proofs.Orders

/-!
Lowering in place. A rewrite puts new operations in the place of one without results, and the others stay as they are.
-/
namespace TileLower

open Draft List

namespace Graph

variable {g : Graph} {b : BlockId}

theorem Defined.below {v : Value} (defined : g.Defined v) : v.Below g.ops.size := by
  cases v with
  | argument c i => trivial
  | result k i =>
    by_contra outside
    have some := defined.2
    rw [opOutside outside] at some
    exact absurd some (Nat.not_lt_zero i)

theorem walkInside (ok : g.verify = .ok ()) {j} (mem : j ∈ g.walkAll) : j < g.ops.size := by
  obtain ⟨⟨c,block,-⟩,-⟩ := walkListed ok mem
  exact blockInside block

end Graph

inductive Supplants (N : Operation → Prop) (g : Graph) (id : OpId) : Draft → Prop where
  | of (ops : List Operation) (new : ∀ o ∈ ops, o.region = none ∧ N o) :
      Supplants N g id { staged g ops with replacements := [(id, [])] }

abbrev Lowers (N : Operation → Prop) (g : Graph) (id : OpId) (m : Drafting Unit) : Prop :=
  Drafting.Ends (fun _ e => Supplants N g id e) m (.ofGraph g)

namespace Supplants

open TileLower.Graph

variable {N : Operation → Prop} {g : Graph} {id : OpId} {d : Draft} {b : BlockId}

theorem replaceWithNew (ops : List Operation) {o : Operation} (within : id < g.ops.size) (without : (g.op id).results = [])
    (bare : o.results = []) (new : ∀ x ∈ ops ++ [o], x.region = none ∧ N x) :
    Drafting.Ends (fun _ d => Supplants N g id d) (Draft.replaceWithNew id (g.ops.size + ops.length))
      { staged g ops with graph := (g.pushAll ops).push o } := by
  have size : (staged g ops).graph.ops.size = g.ops.size + ops.length := g.pushAllSize ops
  have listed : ({ staged g ops with graph := (g.pushAll ops).push o, created :=
      (staged g ops).created ++ [g.ops.size + ops.length] } : Draft) = staged g (ops ++ [o]) := by
    rw [← stagedPush,Draft.push,size]
    rfl
  have results : (staged g (ops ++ [o])).graph.resultsOf (g.ops.size + ops.length) = [] := by
    rw [resultsOf,show (staged g (ops ++ [o])).graph = g.pushAll (ops ++ [o]) from rfl,
      g.pushAllNew _ getElem?_concat_length,bare]
    rfl
  refine .next (b := ()) (e := staged g (ops ++ [o])) (by rw [← listed]; rfl) ?_
  refine .next Drafting.graphRun ?_
  rw [results]
  have same : ((staged g (ops ++ [o])).graph.op id).results = [] := by
    rw [← without]
    exact congrArg Operation.results (g.pushAllOld _ within)
  have fits : canReplace (staged g (ops ++ [o])).graph id ([].map some) = .ok () := by
    simp [canReplace,same,checkReplacement]
  refine .next Drafting.graphRun (.next (Drafting.liftOk.mpr ⟨fits,rfl⟩) ?_)
  exact .done rfl (.of (ops ++ [o]) new)

theorem commitRun (supplants : Supplants N g id d) (block : (g.op id).block = some b) : ∃ ops,
    (∀ o ∈ ops, o.region = none ∧ N o) ∧ d.commit id =
      .ok (((g.pushAll ops).insertBefore b (some id) (range' g.ops.size ops.length)).erase b id) := by
  cases supplants with
  | of ops new =>
    have within := blockInside block
    have home : ((g.pushAll ops).op id).block = some b := by rw [g.pushAllOld ops within,block]
    have still : (((g.pushAll ops).insertBefore b (some id) (range' g.ops.size ops.length)).op id).block = some b := by
      rw [insertBeforeOp,if_neg,home]
      exact fun created => Nat.not_lt_of_le (mem_range'_1.mp created.1).1 within
    refine ⟨ops,new,?_⟩
    unfold Draft.commit
    simp only [staged,home,ofGraph,commitMoves,Changed.andThen,Changed.ok,commitReplacements,
      replaceResults,detach,still,commitErasures]

theorem other (supplants : Supplants N g id d) (block : (g.op id).block = some b) {j} (old : j < g.ops.size)
    (other : j ≠ id) : (d.commit id).graph.op j = g.op j := by
  obtain ⟨ops,-,run⟩ := supplants.commitRun block
  rw [run]
  simp only [Changed.ok]
  rw [eraseOther _ _ _ other,insertBeforeOp,if_neg,g.pushAllOld ops old]
  exact fun created => Nat.not_lt_of_le (mem_range'_1.mp created.1).1 old

end Supplants

structure Lowered (N : Operation → Prop) (g h : Graph) : Prop where
  size : g.ops.size ≤ h.ops.size
  blocks : h.blocks.size = g.blocks.size
  old : ∀ j < g.ops.size, ∃ block, h.op j = { g.op j with block }
  new : ∀ j, g.ops.size ≤ j → j < h.ops.size → ∃ o block, o.region = none ∧ N o ∧ h.op j = { o with block }
  args : ∀ c, (h.block c).args = (g.block c).args
  listed : ∀ c, ∀ j ∈ (h.block c).ops, j ∈ (g.block c).ops ∨ g.ops.size ≤ j

namespace Lowered

open TileLower.Graph

variable {N : Operation → Prop} {g h : Graph} {id : OpId} {d : Draft} {b : BlockId}

theorem refl (N : Operation → Prop) (g : Graph) : Lowered N g g where
  size := le_rfl
  blocks := rfl
  old _ _ := ⟨_,rfl⟩
  new _ le lt := absurd lt (Nat.not_lt_of_le le)
  args _ := rfl
  listed _ _ mem := .inl mem

theorem erase (lowered : Lowered N g h) (b : BlockId) (id : OpId) : Lowered N g (h.erase b id) where
  size := by rw [eraseSize]; exact lowered.size
  blocks := by rw [eraseBlocks]; exact lowered.blocks
  old j lt := by
    obtain ⟨block,same⟩ := lowered.old j lt
    obtain ⟨block',same'⟩ := h.eraseFrame b id j
    exact ⟨block',by rw [same',same]⟩
  new j le lt := by
    rw [eraseSize] at lt
    obtain ⟨o,block,plain,holds,same⟩ := lowered.new j le lt
    obtain ⟨block',same'⟩ := h.eraseFrame b id j
    exact ⟨o,block',plain,holds,by rw [same',same]⟩
  args c := by
    rw [eraseBlock,← lowered.args c]
    split <;> rfl
  listed c j mem := lowered.listed c j ((h.eraseMem b id).1 mem)

theorem insert (lowered : Lowered N g h) {ops : List Operation} (new : ∀ o ∈ ops, o.region = none ∧ N o) (b : BlockId)
    (anchor : Option OpId) :
    Lowered N g ((h.pushAll ops).insertBefore b anchor (range' h.ops.size ops.length)) where
  size := by
    rw [insertBeforeSize,pushAllSize]
    exact lowered.size.trans (Nat.le_add_right ..)
  blocks := by rw [insertBeforeBlocks,pushAllBlocks]; exact lowered.blocks
  old j lt := by
    obtain ⟨block,same⟩ := lowered.old j lt
    have old := lt.trans_le lowered.size
    rw [insertBeforeOp,h.pushAllOld ops old,same]
    split
    · exact ⟨_,rfl⟩
    · exact ⟨_,rfl⟩
  new j le lt := by
    rw [insertBeforeOp]
    by_cases old : j < h.ops.size
    · obtain ⟨o,block,plain,holds,same⟩ := lowered.new j le old
      rw [h.pushAllOld ops old,same]
      split
      · exact ⟨o,_,plain,holds,rfl⟩
      · exact ⟨o,_,plain,holds,rfl⟩
    · obtain ⟨m,rfl⟩ := Nat.exists_eq_add_of_le (Nat.le_of_not_lt old)
      rw [insertBeforeSize,pushAllSize] at lt
      have at_ : ops[m]? = some ops[m] := getElem?_eq_getElem (by omega)
      obtain ⟨plain,holds⟩ := new _ (mem_of_getElem? at_)
      rw [h.pushAllNew ops at_]
      split
      · exact ⟨_,_,plain,holds,rfl⟩
      · exact ⟨_,_,plain,holds,rfl⟩
  args c := by rw [insertBeforeArgs,pushAllBlock,lowered.args]
  listed c j mem := by
    rw [insertBefore,modifyBlockAt,placeInBlock,pushAllBlock] at mem
    split at mem
    · simp only [mem_append,mem_range'_1] at mem
      rcases mem with (before | created) | after
      · exact lowered.listed c j (mem_of_mem_take before)
      · exact .inr (lowered.size.trans created.1)
      · exact lowered.listed c j (mem_of_mem_drop after)
    · exact lowered.listed c j mem

theorem commit (lowered : Lowered N g h) (supplants : Supplants N h id d) (block : (h.op id).block = some b) :
    (d.commit id).fault = none ∧ Lowered N g (d.commit id).graph := by
  obtain ⟨ops,new,run⟩ := supplants.commitRun block
  rw [run]
  exact ⟨rfl,(lowered.insert new b (some id)).erase b id⟩

theorem eliminate (lowered : Lowered N g h) : Lowered N g (DeadCode.eliminate h).1 := by
  refine DeadCode.eliminateKeeps (fun h id _ lowered => ?_) lowered
  unfold DeadCode.takeOut
  split
  · exact lowered.erase _ id
  · exact lowered

theorem typeOf (lowered : Lowered N g h) {v : Value} (below : v.Below g.ops.size) : h.typeOf v = g.typeOf v := by
  cases v with
  | argument c i => simp only [Graph.typeOf,slot,lowered.args c]
  | result k i =>
    obtain ⟨block,same⟩ := lowered.old k below
    simp only [Graph.typeOf,slot,same]

theorem walked (lowered : Lowered N g h) {j} (mem : j ∈ h.walkAll) : j ∈ g.walkAll ∨ g.ops.size ≤ j := by
  have walk (n : Nat) : ∀ b, j ∈ h.walk n b → j ∈ g.walk n b ∨ g.ops.size ≤ j := by
    induction n with
    | zero => exact fun b mem => by cases mem
    | succ n ih =>
      intro b mem
      obtain ⟨l,listed,mem⟩ := mem_flatMap.mp mem
      by_cases within : l < g.ops.size
      · obtain ⟨block,same⟩ := lowered.old l within
        have listed := (lowered.listed b l listed).resolve_right (Nat.not_le_of_lt within)
        rcases mem_cons.mp mem with rfl | inner
        · exact .inl (mem_flatMap.mpr ⟨j,listed,.head _⟩)
        · rw [same] at inner
          cases region : (g.op l).region with
          | none =>
            simp only [region] at inner
            cases inner
          | some r =>
            simp only [region] at inner
            refine (ih r inner).imp_left fun deeper => ?_
            refine mem_flatMap.mpr ⟨l,listed,.tail _ ?_⟩
            simp only [region]
            exact deeper
      · have beyond := Nat.le_of_not_lt within
        -- A new operation has no region.
        have plain : (h.op l).region = none := by
          by_cases inside : l < h.ops.size
          · obtain ⟨o,block,plain,-,same⟩ := lowered.new l beyond inside
            rw [same]
            exact plain
          · rw [opOutside inside]
            rfl
        rw [plain] at mem
        rcases mem_cons.mp mem with rfl | inner
        · exact .inr beyond
        · cases inner
  rw [walkAll,walkFrom,lowered.blocks] at mem
  exact walk _ _ mem

open Greedy

variable {σ : Type} {rules : List Rule}

theorem attempt (lowered : Lowered N g h) (alive : h.isAlive id = true)
    (ends : ∀ r ∈ rules, Tried r h id → Drafting.Ends (fun _ d => Supplants N h id d) (r.draft ⟨r.name,id⟩) (.ofGraph h))
    {p : Progress σ} (here : p.graph = h) (going : p.fault = none) :
    (tryAt id (rules.map Pattern.ofRule) p).2.fault = none ∧
      Lowered N g (tryAt id (rules.map Pattern.ofRule) p).2.graph := by
  subst here
  obtain ⟨b,block⟩ := Option.isSome_iff_exists.mp alive
  exact attemptGoes going lowered fun r mem tried => (ends r mem tried).mono fun _ _ supplants => lowered.commit supplants block

theorem goes (final : ∀ o, N o → ∀ r ∈ rules, r.root ≠ "" ∧ r.root ≠ o.kind)
    (ends : ∀ h, Lowered N g h → ∀ j ∈ g.walkAll, h.isAlive j = true → ∀ r ∈ rules, Tried r h j →
      Drafting.Ends (fun _ d => Supplants N h j d) (r.draft ⟨r.name,j⟩) (.ofGraph h)) (o : Options) (s : σ) :
    (apply (rules.map Pattern.ofRule) o g s).fault = none := by
  refine (applyGoes (J := Lowered N g) (fun h lowered j mem p going lowered' alive => ?_) (fun _ lowered => lowered.eliminate)
    (refl N g) o s).1
  refine lowered'.attempt alive (fun r listed tried => ?_) rfl going
  rcases lowered.walked mem with old | new
  · exact ends p.graph lowered' j old alive r listed tried
  · obtain ⟨b,block⟩ := Option.isSome_iff_exists.mp alive
    obtain ⟨o,_,-,holds,same⟩ := lowered'.new j new (blockInside block)
    rw [Tried,same] at tried
    exact absurd tried (not_or.mpr (final o holds r listed))

end Lowered

end TileLower

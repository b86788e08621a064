import TileLower.Proofs.Commits

/-!
Well-formed functions stay well formed: under commits of the rules of the catalogue, also those that fail halfway,
under the elimination of dead code, and so in whole runs, `Greedy.staysWellFormed`.
-/
namespace TileLower

open List OrderedMap Catalogue

namespace DeadCode

open TileLower.Graph

variable {g : Graph} {id : OpId} {ids : List OpId} {b : BlockId}

theorem eraseSplice (formed : g.WellFormed) (block : (g.op id).block = some b) (dead : isDead g id = true) :
    Splice g (g.erase b id) id [] (· ∉ g.resultsOf id) (fun v => v) := by
  have ops {c : BlockId} {visible : List Value} (scope : g.Scope c visible) :
      ((g.erase b id).block c).ops = (g.block c).ops.erase id := by
    rw [eraseBlock]
    split
    · rfl
    · rename_i other
      rw [erase_of_not_mem (scope.notListed formed block other)]
  refine ⟨by rw [eraseBlocks],fun c visible scope => ?_,fun c visible scope => ?_,fun c visible scope => ?_,
    fun c scope j place other => ?_,fun c scope j place other r region => ?_,fun c scope j place _ w operand used => ?_,
    fun _ _ => rfl,fun c scope n place here scope' carries _ => ⟨trivial,fun v mem needed => absurd mem needed⟩⟩
  · rw [eraseBlock]
    split <;> rfl
  · rw [ops scope]
    by_cases mem : id ∈ (g.block c).ops
    · obtain ⟨pre,post,split⟩ := append_of_mem mem
      have once := scope.once formed
      have before : id ∉ pre := fun mem => by
        rw [split] at once
        exact disjoint_of_nodup_append once mem (.head _)
      rw [splicePresent split once,split,erase_append_right _ before,erase_cons_head,append_nil]
    · rw [erase_of_not_mem mem,spliceAbsent mem]
  · rw [ops scope]
    exact (scope.once formed).erase id
  · rw [eraseOther _ _ _ other,spliceSame]
  · rw [eraseBlock]
    split <;> rfl
  · -- Dead means that no operation on the walk uses a result.
    have unused : ((g.resultsOf id).any fun v => g.hasUses (some v)) = false := by
      simp only [isDead,Bool.and_eq_true,Bool.not_eq_true'] at dead
      exact dead.2
    have used : ((g.resultsOf id).any fun v => g.hasUses (some v)) = true := any_eq_true.mpr
      ⟨w,used,any_eq_true.mpr ⟨j,place.walked formed,contains_iff_mem.mpr operand⟩⟩
    rw [unused] at used
    cases used

theorem takeOutSound (sound : g.Sound ids) (mem : id ∈ ids) (dead : isDead g id = true) : (takeOut g id).Sound ids := by
  unfold takeOut
  split
  · rename_i b block
    refine sound.after id ((eraseSplice sound.formed block dead).wellFormed sound.formed) (by rw [eraseSize])
      (eraseHere _ _ _ (sound.listed id mem b block)) (fun j _ other => ?_) (fun c j listed other => ?_)
      (fun r j owner _ => ?_)
    · rw [eraseOther _ _ _ other]
      exact ⟨rfl,rfl⟩
    · rw [eraseBlock]
      split
      · exact (mem_erase_of_ne other).mpr listed
      · exact listed
    · rw [eraseBlock]
      split <;> exact owner
  · exact sound

theorem passSound {visited} (among : ∀ j ∈ visited, j ∈ ids) {n} (sound : g.Sound ids) :
    (pass visited (g, n)).1.Sound ids :=
  passKeeps (I := fun g _ => g.Sound ids) (fun j mem _ _ sound dead => takeOutSound sound (among j mem) dead) sound

theorem eliminateFormed (formed : g.WellFormed) : (eliminate g).1.WellFormed :=
  passesKeep (I := fun g _ => g.WellFormed)
    (fun _ _ formed => (passSound (fun _ mem => mem_reverse.mp mem) formed.sound).formed) _ formed

end DeadCode

namespace Greedy

variable {σ : Type} {rules : List Rule} {ids : List OpId}

def Visiting (ids : List OpId) : Known := fun g _ _ stopped => g.WellFormed ∧ (stopped = false → g.Sound ids)

theorem attemptVisiting (listed : ∀ r ∈ rules, Listed r) {id} (mem : id ∈ ids) {p q : Progress σ}
    (going : p.fault = none) (holds : (Visiting ids).of p) (alive : p.graph.isAlive id = true)
    (attempt : Attempt rules id p q) : (Visiting ids).of q := by
  obtain ⟨b,block⟩ := Option.isSome_iff_exists.mp alive
  have sound : p.graph.Sound ids := holds.2 (by rw [going]; rfl)
  have sight := sound.formed.sight (sound.within id mem)
  unfold Known.of Visiting
  cases attempt with
  | nothing graph =>
    rw [graph]
    exact ⟨sound.formed,fun _ => sound⟩
  | committed mem' drafted graph whole =>
    obtain ⟨target,vals,ready⟩ := ready (listed _ mem') sight drafted
    obtain ⟨formed,after⟩ := ready.commitSound sound mem block
    rw [graph]
    exact ⟨formed,fun _ => after whole⟩
  | broken mem' drafted graph broken changes fault =>
    obtain ⟨target,vals,ready⟩ := ready (listed _ mem') sight drafted
    rw [graph,fault]
    exact ⟨(ready.commitSound sound mem block).1,nofun⟩

theorem applyFormed (listed : ∀ r ∈ rules, Listed r) (o : Options) {g : Graph} (s : σ)
    (formed : g.WellFormed) : (apply (rules.map Pattern.ofRule) o g s).graph.WellFormed := by
  refine applyKeeps (I := fun h _ _ _ => h.WellFormed) (fun p going formed => ?_) (fun _ h n e formed => ?_) formed
  · have visited : (Visiting p.graph.walkAll).of (visit (rules.map Pattern.ofRule) p.graph.walkAll false p).2 :=
      visitKeeps (fun id mem p going holds alive =>
        attemptVisiting listed mem going holds alive (tryAtAttempted rules id p).attempt) false going
        ⟨formed,fun _ => formed.sound⟩
    exact visited.1
  · exact DeadCode.eliminateFormed formed

theorem staysWellFormed (listed : ∀ r ∈ rules, Catalogue.Listed r) (o : Options) {g : Graph} (s : σ)
    (ok : g.verify = .ok ()) (once : g.walkAll.Nodup) :
    (apply (rules.map Pattern.ofRule) o g s).graph.verify = .ok () :=
  (applyFormed listed o s (Graph.wellFormedOfVerify ok once)).verify

def product (listed : List OpId) : Graph where
  name := "main"
  ops := #[⟨Structured.matmulKind,[some (.argument 0 0), some (.argument 0 1), some (.argument 0 2)],
      [.ofType (.tensor .f32 [2, 2])],Attributes.ofList [(Structured.numInputsAttr, .int 2)],some 1,some 0⟩,
    ⟨Memory.returnKind,[some (.result 0 0)],[],empty,none,some 0⟩,
    ⟨Arith.mulFloatKind,[some (.argument 1 0), some (.argument 1 1)],[.ofType (.scalar .f32)],empty,
      none,some 1⟩,
    ⟨Arith.addFloatKind,[some (.argument 1 2), some (.result 2 0)],[.ofType (.scalar .f32)],empty,
      none,some 1⟩,
    ⟨Structured.yieldKind,[some (.result 3 0)],[],empty,none,some 1⟩]
  blocks := #[⟨replicate 3 (.ofType (.tensor .f32 [2, 2])),listed,none⟩,
    ⟨replicate 3 (.ofType (.scalar .f32)),[2, 3, 4],some 0⟩]

theorem staysWellFormedProduct : (∀ r ∈ [Blocking.matmul [1, 2, 1]], Catalogue.Listed r) ∧
    (product [0, 1]).verify = .ok () ∧ (product [0, 1]).walkAll.Nodup ∧
    (apply [Pattern.ofRule (Blocking.matmul [1, 2, 1])] ⟨1, true⟩ (product [0, 1]) ()).graph.verify = .ok () := by
  have listed : ∀ r ∈ [Blocking.matmul [1, 2, 1]], Catalogue.Listed r := fun r mem =>
    ⟨[1, 2, 1],List.mem_append_left _ (List.mem_singleton.mp mem ▸ .head _)⟩
  have ok : (product [0, 1]).verify = .ok () := by decide +kernel
  have once : (product [0, 1]).walkAll.Nodup := by decide +kernel
  exact ⟨listed,ok,once,staysWellFormed listed ⟨1,true⟩ () ok once⟩

/-- If the body lists the multiplication twice, it is replaced in one place only, and stays in a block that it no
longer names. -/
theorem twiceListedProduct : (product [0, 0, 1]).verify = .ok () ∧
    (apply [Pattern.ofRule (Blocking.matmul [1, 2, 1])] ⟨1, true⟩ (product [0, 0, 1]) ()).graph.verify ≠ .ok () := by
  decide +kernel

end Greedy

end TileLower

import TileLower.Proofs.Rules
import TileLower.Proofs.Sweeps

/-!
Rewrites take place as a whole: `Greedy.stopsWhole`. The one exception is an attempt to move the region of an
operation that has none.
-/
namespace TileLower

open Greedy

theorem Graph.insertBeforeRegion (g : Graph) (b : BlockId) (anchor : Option OpId) (ids : List OpId) (id : OpId) :
    ((g.insertBefore b anchor ids).op id).region = (g.op id).region := by
  rw [insertBeforeOp]
  split <;> rfl

namespace Ready

variable {g : Graph} {id : OpId} {V : Operand → Prop} {target : Option OpId} {vals : List Value} {d : Draft}
  {b : BlockId}

def inserted (d : Draft) (id : OpId) (b : BlockId) (target : Option OpId) : Graph :=
  let h := d.graph.insertBefore b (some id) d.created
  match target with
  | none => h
  | some t => h.takeRegion t id

variable (ready : Ready g id V target vals d) (block : (g.op id).block = some b)

include ready block

theorem commitCases :
    (d.commit id = .ok (Draft.detach (Draft.replaceResults (inserted d id b target) id 0 (vals.map some)) id) ∧
      (target = none ∨ (g.op id).region.isSome)) ∨
    ((d.commit id).fault.isSome = true ∧ target.isSome = true ∧ (g.op id).region = none ∧
      (d.commit id).graph = d.graph.insertBefore b (some id) d.created) := by
  have old := ready.old id ready.within
  have home : (d.graph.op id).block = some b := by rw [old,block]
  have region := d.graph.insertBeforeRegion b (some id) d.created id
  rw [old] at region
  unfold Draft.commit
  dsimp only
  rw [home,ready.moves,ready.replacements,ready.erased]
  cases target with
  | none => exact .inl ⟨rfl,.inl rfl⟩
  | some t =>
    simp only [Option.toList_some,List.map_cons,List.map_nil,Draft.commitMoves,region]
    cases here : (g.op id).region with
    | none => exact .inr ⟨rfl,rfl,rfl,rfl⟩
    | some r => exact .inl ⟨rfl,.inr rfl⟩

theorem commitGoes (goes : target = none ∨ (g.op id).region.isSome) : (d.commit id).fault = none := by
  rcases ready.commitCases block with ⟨ran,-⟩ | ⟨-,aimed,none,-⟩
  · rw [ran]
    rfl
  · rcases goes with rfl | region
    · cases aimed
    · rw [none] at region
      cases region

end Ready

namespace Greedy

/-- Functions that whole changes lead to: rewrites that were committed without a fault, which are counted first, and
eliminations of dead code, of which the operations are counted. -/
inductive Reaches (rules : List Rule) (g : Graph) : Nat → Nat → Graph → Prop where
  | start : Reaches rules g 0 0 g
  | rewrite {n e : Nat} {h : Graph} {r : Rule} {id : OpId} {d : Draft} (before : Reaches rules g n e h) (mem : r ∈ rules)
      (alive : h.isAlive id = true) (drafted : r.draft ⟨r.name,id⟩ (Draft.ofGraph h) = .ok () d)
      (whole : (d.commit id).fault = none) : Reaches rules g (n + 1) e (d.commit id).graph
  | clean {n e : Nat} {h : Graph} (before : Reaches rules g n e h) :
      Reaches rules g n (e + (DeadCode.eliminate h).2) (DeadCode.eliminate h).1

/-- An attempt that moves a region which is not there: new operations are in place, and nothing else is done. -/
structure Halfway (rules : List Rule) (h h' : Graph) (r : Rule) (id : OpId) (b : BlockId) (d : Draft) : Prop where
  mem : r ∈ rules
  block : (h.op id).block = some b
  drafted : r.draft ⟨r.name,id⟩ (Draft.ofGraph h) = .ok () d
  moves : d.moves ≠ []
  region : (h.op id).region = none
  graph : h' = d.graph.insertBefore b (some id) d.created

def ReachedBy (rules : List Rule) (g : Graph) : Known := fun h' changes erased stopped =>
  ∃ h, Reaches rules g changes erased h ∧ (h' = h ∨ stopped = true ∧ ∃ r id b d, Halfway rules h h' r id b d)

variable {σ : Type} {rules : List Rule} {g : Graph}

theorem reachedGoing {p : Progress σ} (going : p.fault = none) (made : (ReachedBy rules g).of p) :
    Reaches rules g p.changes p.erased p.graph := by
  obtain ⟨h,reaches,same | ⟨stopped,-⟩⟩ := made
  · exact same ▸ reaches
  · rw [going] at stopped
    cases stopped

theorem attemptReached (listed : ∀ r ∈ rules, Catalogue.Listed r) {id} {p q : Progress σ} (going : p.fault = none)
    (made : (ReachedBy rules g).of p) (alive : p.graph.isAlive id = true) (erased : q.erased = p.erased)
    (attempt : Attempt rules id p q) : (ReachedBy rules g).of q := by
  have before := reachedGoing going made
  obtain ⟨b,block⟩ := Option.isSome_iff_exists.mp alive
  -- Nothing is asked of the values that a rule uses.
  have sight : Sight p.graph id fun _ => True :=
    ⟨Graph.blockInside block,fun _ _ => trivial,fun _ _ _ _ _ => trivial⟩
  unfold Known.of
  cases attempt with
  | nothing graph changes =>
    rw [graph,changes,erased]
    exact ⟨p.graph,before,.inl rfl⟩
  | committed mem drafted graph whole changes =>
    rw [graph,changes,erased]
    exact ⟨_,.rewrite before mem alive drafted whole,.inl rfl⟩
  | broken mem drafted graph broken changes fault =>
    rw [graph,changes,erased,fault]
    obtain ⟨target,vals,ready⟩ := Catalogue.ready (listed _ mem) sight drafted
    rcases ready.commitCases block with ⟨whole,-⟩ | ⟨-,target,region,inserted⟩
    · rw [whole] at broken
      exact absurd rfl broken
    · obtain ⟨t,rfl⟩ := Option.isSome_iff_exists.mp target
      refine ⟨p.graph,before,.inr ⟨rfl,_,id,b,_,mem,block,drafted,?_,region,inserted⟩⟩
      rw [ready.moves]
      exact List.cons_ne_nil _ _

theorem stopsWhole (listed : ∀ r ∈ rules, Catalogue.Listed r) (o : Options) (g : Graph) (s : σ) :
    ∃ h, Reaches rules g (apply (rules.map Pattern.ofRule) o g s).changes
        (apply (rules.map Pattern.ofRule) o g s).erased h ∧
      ((apply (rules.map Pattern.ofRule) o g s).graph = h ∨
        (apply (rules.map Pattern.ofRule) o g s).fault.isSome = true ∧
          ∃ r id b d, Halfway rules h (apply (rules.map Pattern.ofRule) o g s).graph r id b d) := by
  have made : (ReachedBy rules g).of (apply (rules.map Pattern.ofRule) o g s) := by
    refine applyKeeps (fun p going made => ?_) (fun _ h n e made => ?_) ⟨g,.start,.inl rfl⟩
    · refine visitKeeps (fun id _ p going made alive => ?_) false going made
      obtain ⟨attempt,erased,-⟩ := tryAtAttempted rules id p
      exact attemptReached listed going made alive erased attempt
    · obtain ⟨h',reaches,rfl | ⟨stopped,-⟩⟩ := made
      · exact ⟨_,.clean reaches,.inl rfl⟩
      · cases stopped
  exact made

def bodiless : Graph where
  name := "main"
  ops := #[⟨Structured.matmulKind,[some (.argument 0 0), some (.argument 0 1), some (.argument 0 2)],
      [.ofType (.tensor .f32 [2, 2])],Attributes.ofList [(Structured.numInputsAttr, .int 2)],none,some 0⟩,
    ⟨Memory.returnKind,[some (.result 0 0)],[],OrderedMap.empty,none,some 0⟩]
  blocks := #[⟨List.replicate 3 (.ofType (.tensor .f32 [2, 2])),[0, 1],none⟩]

theorem stopsWholeBodiless : (∀ r ∈ [Blocking.matmul [1, 1, 1]], Catalogue.Listed r) ∧
    ∃ h, Reaches [Blocking.matmul [1, 1, 1]] bodiless
        (apply [Pattern.ofRule (Blocking.matmul [1, 1, 1])] ⟨1, true⟩ bodiless ()).changes
        (apply [Pattern.ofRule (Blocking.matmul [1, 1, 1])] ⟨1, true⟩ bodiless ()).erased h ∧
      ((apply [Pattern.ofRule (Blocking.matmul [1, 1, 1])] ⟨1, true⟩ bodiless ()).graph = h ∨
        (apply [Pattern.ofRule (Blocking.matmul [1, 1, 1])] ⟨1, true⟩ bodiless ()).fault.isSome = true ∧
          ∃ r id b d, Halfway [Blocking.matmul [1, 1, 1]] h
            (apply [Pattern.ofRule (Blocking.matmul [1, 1, 1])] ⟨1, true⟩ bodiless ()).graph r id b d) := by
  have listed : ∀ r ∈ [Blocking.matmul [1, 1, 1]], Catalogue.Listed r := fun r mem =>
    ⟨[1, 1, 1],List.mem_append_left _ (List.mem_singleton.mp mem ▸ .head _)⟩
  exact ⟨listed,stopsWhole listed ⟨1,true⟩ bodiless ()⟩

/-- The run ends with a fault, nothing was committed or erased, and yet there are eight new operations. -/
theorem halfwayBodiless : bodiless.verify = .ok () ∧
    (apply [Pattern.ofRule (Blocking.matmul [1, 1, 1])] ⟨1, true⟩ bodiless ()).fault.isSome = true ∧
    (apply [Pattern.ofRule (Blocking.matmul [1, 1, 1])] ⟨1, true⟩ bodiless ()).changes = 0 ∧
    (apply [Pattern.ofRule (Blocking.matmul [1, 1, 1])] ⟨1, true⟩ bodiless ()).erased = 0 ∧
    bodiless.walkAll.length = 2 ∧
    (apply [Pattern.ofRule (Blocking.matmul [1, 1, 1])] ⟨1, true⟩ bodiless ()).graph.walkAll.length = 10 := by
  decide +kernel

end Greedy

end TileLower

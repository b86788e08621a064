import TileLower.Proofs.Convolutions
import TileLower.Proofs.Degeneralizations
import TileLower.Proofs.Eliminations
import TileLower.Proofs.Liveness
import TileLower.Proofs.Matmuls
import TileLower.Proofs.Paddings
import TileLower.Proofs.WellFormedness

/-!
Whole runs. Rewrites that leave a function doing what it did can follow one another, in any order and with dead code
eliminated between them: `Greedy.applyRefines`.
-/
namespace TileLower

open Eval

section Meaning

variable {α : Type} [Scalar α] {memory : Array (NdArray α)} {args : List Ref} {g : Graph} {id : OpId} {r : Rule} {d : Draft}

theorem Eval.Refines.trans {h k : Graph} (first : Refines g h memory args) (second : Refines h k memory args) :
    Refines g k memory args := by
  intro xs ran
  obtain ⟨ran,same⟩ := first xs ran
  obtain ⟨ran,same'⟩ := second xs ran
  exact ⟨ran,fun r within => (same' r within).trans (same r within)⟩

theorem Catalogue.rooted (listed : Catalogue.Listed r) : r.root ≠ "" := by
  obtain ⟨tiles,mem⟩ := listed
  have roots : (tiled tiles ++ untiled).map Rule.root = (tiled [] ++ untiled).map Rule.root := rfl
  have known : ∀ root ∈ (tiled [] ++ untiled).map Rule.root, root ≠ "" := by decide
  exact known _ (roots ▸ List.mem_map_of_mem mem)

open Propagation Blocking Relayout in
/-- What is asked of a function and its arguments, for a rule to rewrite an operation of it and change no meaning. Of an
unpack that is moved through an elementwise operation it is asked that this one rewrite changes none. -/
inductive Catalogue.Admits (memory : Array (NdArray α)) (args : List Ref) (g : Graph) (id : OpId) : Rule → Prop where
  | matmul {ti tj tk : Int64} (eligible : Eligible g id [.ncnc ti tk, .kcck tk tj, .ncnc ti tj])
      (made : MadeArguments memory args) : Admits memory args g id (matmul [ti, tj, tk])
  | conv {F : Form} {tc tk : Int64} {b : BlockId} {mul add yield : OpId} (summable : Scalar.Summable α)
      (form : F = channelsFirst ∨ F = channelsLast) (region : (g.op id).region = some b) (adds : g.MulAdds b mul add yield)
      (eligible : Eligible g id [F.imageLayout tc, F.filterLayout tc tk, F.imageLayout tk])
      (made : MadeArguments memory args) : Admits memory args g id (F.rule [tc, tk])
  | degeneralize (commutes : Scalar.Commutes α) (built : g.Built id) (bodied : g.Bodied id) :
      Admits memory args g id degeneralizeMatmul
  | fold {r : Rule} (folds : Folds g id r) (conventional : ∀ j ∈ (g.block Graph.body).ops, g.Conventional j)
      (consistent : ∀ j ∈ (g.block Graph.body).ops, Consistent g j) (counted : CountedArguments memory args) :
      Admits memory args g id r
  | pad (orderly : ∀ j ∈ (g.block Graph.body).ops, g.Orderly j)
      (unpacked : ∀ j i, (g.op id).operands[0]? = some (some (.result j i)) → ∃ v w, UnpacksWhole g j v w)
      (countable : Countable (g.typeOf (.result id 0))) : Admits memory args g id throughPad
  | elementwise (kept : ∀ d, throughElementwise.draft ⟨throughElementwise.name,id⟩ (.ofGraph g) = .ok () d →
      RefinesBy g d id memory args) : Admits memory args g id throughElementwise

theorem Catalogue.Admits.refines (admits : Admits memory args g id r) (formed : g.WellFormed) (mem : id ∈ g.walkAll)
    (root : (g.op id).kind = r.root) (drafted : r.draft ⟨r.name,id⟩ (.ofGraph g) = .ok () d)
    (valid : ∀ r ∈ args, r < memory.size) : RefinesBy g d id memory args := by
  cases admits with
  | matmul eligible made => exact Blocking.matmulBlocked formed mem root eligible drafted valid made
  | conv summable form region adds eligible made =>
    exact Blocking.convBlocked form formed mem (by rcases form with rfl | rfl <;> exact root) region adds eligible drafted
      valid made
  | degeneralize commutes built bodied => exact ToPrimitive.degeneralized formed mem root built bodied drafted valid
  | fold folds conventional consistent counted =>
    exact Propagation.pairFolded formed conventional consistent folds mem root drafted valid counted
  | pad orderly unpacked countable => exact Propagation.padMoved formed orderly mem root unpacked countable drafted valid
  | elementwise kept => exact kept d drafted

end Meaning

namespace Greedy

/-- The functions that a run may come to, at whichever operations and in whichever order rules are tried. -/
inductive OnWay (rules : List Rule) (o : Options) (g : Graph) : Graph → Prop where
  | start : OnWay rules o g g
  | rewrite {h : Graph} {r : Rule} {id : OpId} {d : Draft} (before : OnWay rules o g h) (mem : r ∈ rules)
      (alive : h.isAlive id = true) (root : (h.op id).kind = r.root)
      (drafted : r.draft ⟨r.name,id⟩ (.ofGraph h) = .ok () d) (whole : (d.commit id).fault = none) :
      OnWay rules o g (d.commit id).graph
  | clean {h : Graph} (before : OnWay rules o g h) (deadCode : o.deadCode = true) :
      OnWay rules o g (DeadCode.eliminate h).1

section Run

variable {α : Type} [Scalar α] {σ : Type} {rules : List Rule} {o : Options} {g : Graph} {memory : Array (NdArray α)}
  {args : List Ref} (listed : ∀ r ∈ rules, Catalogue.Listed r)
  (admits : ∀ h, OnWay rules o g h → ∀ r ∈ rules, ∀ id d, h.isAlive id = true → (h.op id).kind = r.root →
    r.draft ⟨r.name,id⟩ (.ofGraph h) = .ok () d → id ∈ h.walkAll ∧ Catalogue.Admits memory args h id r)
  (valid : ∀ r ∈ args, r < memory.size)

include listed admits valid

theorem attemptRefines {ids : List OpId} {id} (mem : id ∈ ids) {p q : Progress σ} (going : p.fault = none)
    (holds : (Visiting ids).of p ∧ OnWay rules o g p.graph ∧ Refines g p.graph memory args)
    (alive : p.graph.isAlive id = true) (attempt : Attempt rules id p q) :
    (Visiting ids).of q ∧ OnWay rules o g q.graph ∧ Refines g q.graph memory args := by
  obtain ⟨visiting,way,refines⟩ := holds
  have formed : p.graph.WellFormed := visiting.1
  -- A rewrite that is drafted is committed as a whole, so that no attempt is broken.
  have step {r : Rule} {d : Draft} (among : r ∈ rules)
      (drafted : r.draft ⟨r.name,id⟩ (.ofGraph p.graph) = .ok () d) (applies : r.root = "" ∨ r.root = (p.graph.op id).kind) :
      (d.commit id).fault = none ∧ OnWay rules o g (d.commit id).graph ∧ Refines g (d.commit id).graph memory args := by
    have root := (applies.resolve_left (Catalogue.rooted (listed r among))).symm
    obtain ⟨walked,admitted⟩ := admits p.graph way r among id d alive root drafted
    obtain ⟨whole,kept⟩ := admitted.refines formed walked root drafted valid
    exact ⟨whole,.rewrite way among alive root drafted whole,refines.trans kept⟩
  refine ⟨attemptVisiting listed mem going visiting alive attempt,?_⟩
  cases attempt with
  | nothing graph =>
    rw [graph]
    exact ⟨way,refines⟩
  | committed among drafted graph _ _ _ applies =>
    rw [graph]
    exact (step among drafted applies).2
  | broken among drafted _ broken _ _ applies => exact absurd (step among drafted applies).1 broken

end Run

open Blocking

@[irreducible] def unevenBlocked : Graph := ((matmul [1, 2, 2]).committed 0 uneven).getD uneven

theorem unevenOnly {id b} (block : (uneven.op id).block = some b) (kind : (uneven.op id).kind = Structured.matmulKind) :
    id = 0 := by
  have only : ∀ k < uneven.ops.size, (uneven.op k).kind = Structured.matmulKind → k = 0 := by decide +kernel
  exact only id (Graph.blockInside block) kind

theorem unevenDone {id b} (block : (unevenBlocked.op id).block = some b) :
    (unevenBlocked.op id).kind ≠ Structured.matmulKind := by
  have gone : ∀ k < unevenBlocked.ops.size, (unevenBlocked.op k).block.isSome = true →
      (unevenBlocked.op k).kind ≠ Structured.matmulKind := by decide +kernel
  exact gone id (Graph.blockInside block) (by rw [block]; rfl)

theorem onWayUneven {h : Graph} (way : OnWay [matmul [1, 2, 2]] ⟨10,true⟩ uneven h) : h = uneven ∨ h = unevenBlocked := by
  induction way with
  | start => exact .inl rfl
  | rewrite _ mem alive root drafted whole ih =>
    obtain rfl := List.mem_singleton.mp mem
    obtain ⟨b,block⟩ := Option.isSome_iff_exists.mp alive
    rcases ih with rfl | rfl
    · obtain rfl := unevenOnly block root
      right
      rw [unevenBlocked,Rule.committed,drafted]
      simp only [whole,Option.isNone_none,if_true,Option.getD_some]
    · exact absurd root (unevenDone block)
  | clean _ _ ih =>
    rcases ih with rfl | rfl
    · rw [DeadCode.eliminateClean (by decide +kernel)]
      exact .inl rfl
    · rw [DeadCode.eliminateClean (by decide +kernel)]
      exact .inr rfl

end Greedy

end TileLower

import TileLower.Proofs.Histories
import TileLower.Proofs.Outcomes
import TileLower.Rule.Greedy

/-!
Greedy runs. What holds at the start and is kept by each attempt and by each elimination of dead code holds at the
end: `applyKeeps`.
-/
namespace TileLower

namespace DeadCode

variable {I : Graph → Nat → Prop} {g : Graph} {n : Nat}

theorem passKeeps {ids} (step : ∀ id ∈ ids, ∀ g n, I g n → isDead g id = true → I (takeOut g id) (n + 1))
    (holds : I g n) : I (pass ids (g, n)).1 (pass ids (g, n)).2 := by
  induction ids generalizing g n with
  | nil => exact holds
  | cons id ids ih =>
    obtain ⟨here,later⟩ := List.forall_mem_cons.mp step
    rw [pass]
    split
    · rename_i dead
      exact ih later (here g n holds dead)
    · exact ih later holds

theorem passesKeep
    (passed : ∀ g n, I g n → I (pass g.walkAll.reverse (g, n)).1 (pass g.walkAll.reverse (g, n)).2) (fuel : Nat)
    (holds : I g n) : I (passes fuel (g, n)).1 (passes fuel (g, n)).2 := by
  induction fuel generalizing g n with
  | zero => exact holds
  | succ fuel ih =>
    have passed := passed g n holds
    rw [passes]
    generalize pass g.walkAll.reverse (g, n) = out at passed ⊢
    obtain ⟨h,m⟩ := out
    dsimp only at passed ⊢
    split
    · exact passed
    · exact ih passed

theorem eliminateKeeps {J : Graph → Prop} (step : ∀ g id, isDead g id = true → J g → J (takeOut g id)) (holds : J g) :
    J (eliminate g).1 :=
  passesKeep (I := fun g _ => J g) (fun _ _ => passKeeps (I := fun g _ => J g) fun id _ g _ holds dead => step g id dead holds) _ holds

end DeadCode

namespace Greedy

variable {σ : Type} {rules : List Rule}

/-- What an attempt at an operation did. Only a commit changes the function. -/
inductive Attempt (rules : List Rule) (id : OpId) (p q : Progress σ) : Prop where
  | nothing (graph : q.graph = p.graph) (changes : q.changes = p.changes)
      (fault : q.fault = p.fault ∨ q.fault.isSome = true)
  | committed {r : Rule} {d : Draft} (mem : r ∈ rules)
      (drafted : r.draft ⟨r.name,id⟩ (Draft.ofGraph p.graph) = .ok () d) (graph : q.graph = (d.commit id).graph)
      (whole : (d.commit id).fault = none) (changes : q.changes = p.changes + 1) (fault : q.fault = p.fault)
      (applies : r.root = "" ∨ r.root = (p.graph.op id).kind)
  | broken {r : Rule} {d : Draft} (mem : r ∈ rules)
      (drafted : r.draft ⟨r.name,id⟩ (Draft.ofGraph p.graph) = .ok () d) (graph : q.graph = (d.commit id).graph)
      (broken : (d.commit id).fault ≠ none) (changes : q.changes = p.changes) (fault : q.fault.isSome = true)
      (applies : r.root = "" ∨ r.root = (p.graph.op id).kind)

theorem stopWithinOk (p : Progress σ) (message : String) (f : Fault) :
    ∃ c, p.stopWithin message f = { p with fault := some c } := by
  cases f <;> exact ⟨_,rfl⟩

theorem mapOther {k : String} {ks : List String} {n : Nat} {f : String → Nat} (fresh : k ∉ ks) :
    (ks.map fun a => if a = k then n else f a) = ks.map f := by
  refine List.map_congr_left fun a mem => if_neg ?_
  rintro rfl
  exact fresh mem

theorem sumRaised {k : String} {ks : List String} (once : ks.Nodup) (mem : k ∈ ks) (f : String → Nat) :
    (ks.map fun a => if a = k then f k + 1 else f a).sum = (ks.map f).sum + 1 := by
  induction ks with
  | nil => cases mem
  | cons a ks ih =>
    obtain ⟨fresh,once⟩ := List.nodup_cons.mp once
    rw [List.map_cons,List.sum_cons,List.map_cons,List.sum_cons]
    by_cases same : a = k
    · rw [if_pos same,mapOther (same ▸ fresh),same]
      omega
    · rw [if_neg same,ih once ((List.mem_cons.mp mem).resolve_left (Ne.symm same))]
      omega

theorem sumStore {m : OrderedMap String Nat} (inStep : m.InStep) (k : String) :
    (m.store k ((m.load? k).getD 0 + 1)).values.sum = m.values.sum + 1 := by
  let f (a : String) : Nat := (m.load? a).getD 0
  have held (a : String) : ((m.store k (f k + 1)).load? a).getD 0 = if a = k then f k + 1 else f a := by
    rw [OrderedMap.loadStore]
    split <;> rfl
  have values : (m.store k (f k + 1)).values =
      (m.store k (f k + 1)).keys.map fun a => if a = k then f k + 1 else f a :=
    List.map_congr_left fun a _ => held a
  change (m.store k (f k + 1)).values.sum = (m.keys.map f).sum + 1
  rw [values,inStep.keysStore]
  split
  · rename_i known
    exact sumRaised inStep.distinct known f
  · rename_i fresh
    have zero : f k = 0 := congrArg (·.getD 0) (inStep.absent fresh)
    rw [List.map_append,mapOther fresh,zero]
    simp

def Progress.Tallied (p : Progress σ) : Prop := p.applied.InStep ∧ p.changes = p.applied.values.sum

structure Attempted (rules : List Rule) (id : OpId) (p : Progress σ) (changed : Bool) (q : Progress σ) : Prop where
  attempt : Attempt rules id p q
  erased : q.erased = p.erased
  converged : q.converged = p.converged
  tallied : p.Tallied → q.Tallied
  more : changed = true → q.fault = none → p.changes < q.changes

theorem Attempt.le {id} {p q : Progress σ} (attempt : Attempt rules id p q) : p.changes ≤ q.changes := by
  cases attempt with
  | nothing _ changes | broken _ _ _ _ changes => exact changes.ge
  | committed _ _ _ _ changes => exact changes ▸ Nat.le_succ _

theorem commitAttempted {r : Rule} (mem : r ∈ rules) {id d} {p : Progress σ}
    (drafted : r.draft ⟨r.name,id⟩ (Draft.ofGraph p.graph) = .ok () d)
    (applies : r.root = "" ∨ r.root = (p.graph.op id).kind) : Attempted rules id p true (commit r.name id d p) := by
  unfold commit
  dsimp only
  split
  · rename_i f broken
    obtain ⟨c,same⟩ := stopWithinOk { p with graph := (d.commit id).graph }
      ("pattern " ++ r.name ++ " failed to commit on " ++ p.graph.location (some id)) f
    rw [same]
    exact ⟨.broken mem drafted rfl (by simp [broken]) rfl rfl applies,rfl,rfl,fun tallied => tallied,
      fun _ whole => nomatch whole⟩
  · rename_i whole
    refine ⟨.committed mem drafted rfl whole rfl rfl applies,rfl,rfl,fun tallied => ?_,fun _ _ => Nat.lt_succ_self _⟩
    exact ⟨tallied.1.store _ _,(congrArg (· + 1) tallied.2).trans (sumStore tallied.1 r.name).symm⟩

theorem tryAtAmong (id : OpId) (tried : List Rule) (among : ∀ r ∈ tried, r ∈ rules) (p : Progress σ) :
    Attempted rules id p (tryAt id (tried.map Pattern.ofRule) p).1 (tryAt id (tried.map Pattern.ofRule) p).2 := by
  induction tried generalizing p with
  | nil => exact ⟨.nothing rfl rfl (.inl rfl),rfl,rfl,fun tallied => tallied,nofun⟩
  | cons r tried ih =>
    obtain ⟨mem,later⟩ := List.forall_mem_cons.mp among
    -- A pattern that was skipped, or that declined or changed nothing, leaves the rest to be tried.
    have next (ds : List Diagnostic) (es : List Event) : Attempted rules id p
        (tryAt id (tried.map Pattern.ofRule) { p with declines := ds, events := es }).1
        (tryAt id (tried.map Pattern.ofRule) { p with declines := ds, events := es }).2 := by
      obtain ⟨attempt,erased,converged,tallied,more⟩ := ih later { p with declines := ds, events := es }
      refine ⟨?_,erased,converged,tallied,more⟩
      cases attempt with
      | nothing graph changes fault => exact .nothing graph changes fault
      | committed mem drafted graph whole changes fault applies =>
        exact .committed mem drafted graph whole changes fault applies
      | broken mem drafted graph broken changes fault applies =>
        exact .broken mem drafted graph broken changes fault applies
    have stops (c : Fault) : Attempted rules id p false { p with fault := some c } :=
      ⟨.nothing rfl rfl (.inr rfl),rfl,rfl,fun tallied => tallied,nofun⟩
    rw [List.map_cons,tryAt]
    split
    · rename_i applies
      have applies : r.root = "" ∨ r.root = (p.graph.op id).kind := by
        simpa [Pattern.applies,Pattern.ofRule] using applies
      cases drafted : r.draft ⟨r.name,id⟩ (Draft.ofGraph p.graph) with
      | error f d =>
        simp only [Pattern.ofRule,drafted]
        cases f with
        | abort => exact stops _
        | error cause =>
          dsimp only
          split
          · exact next _ _
          · exact stops _
      | ok u d =>
        simp only [Pattern.ofRule,drafted]
        split
        · exact commitAttempted mem drafted applies
        · exact next _ _
    · exact next _ _

theorem tryAtAttempted (rules : List Rule) (id : OpId) (p : Progress σ) :
    Attempted rules id p (tryAt id (rules.map Pattern.ofRule) p).1 (tryAt id (rules.map Pattern.ofRule) p).2 :=
  tryAtAmong id rules (fun _ mem => mem) p

abbrev Known := Graph → Nat → Nat → Bool → Prop

def Known.of (I : Known) (p : Progress σ) : Prop := I p.graph p.changes p.erased p.fault.isSome

theorem visitKeeps {pats : List (Pattern σ)} {I : Progress σ → Prop} {ids : List OpId}
    (attempt : ∀ id ∈ ids, ∀ p : Progress σ, p.fault = none → I p → p.graph.isAlive id = true → I (tryAt id pats p).2)
    (changed : Bool) {p : Progress σ} (going : p.fault = none) (holds : I p) : I (visit pats ids changed p).2 := by
  induction ids generalizing changed p with
  | nil => exact holds
  | cons id ids ih =>
    obtain ⟨here,later⟩ := List.forall_mem_cons.mp attempt
    rw [visit]
    split
    · rename_i alive
      have holds := here p going holds alive
      dsimp only
      split
      · exact holds
      · rename_i none
        exact ih later _ none holds
    · exact ih later _ going holds

section Kept

variable {I : Known} {o : Options}
  (sweeps : ∀ p : Progress σ, p.fault = none → I.of p → I.of (visit (rules.map Pattern.ofRule) p.graph.walkAll false p).2)
  (clean : o.deadCode = true → ∀ g n e, I g n e false →
    I (DeadCode.eliminate g).1 n (e + (DeadCode.eliminate g).2) false)

include sweeps clean

theorem sweepsKeep (fuel : Nat) {p : Progress σ} (going : p.fault = none) (holds : I.of p) :
    I.of (Greedy.sweeps (rules.map Pattern.ofRule) o.deadCode fuel p) := by
  induction fuel generalizing p with
  | zero => exact holds
  | succ fuel ih =>
    have swept := sweeps { p with iterations := p.iterations + 1, declines := [] } going holds
    rw [Greedy.sweeps,sweep]
    generalize visit (rules.map Pattern.ofRule) _ _ _ = out at swept ⊢
    obtain ⟨changed,q⟩ := out
    dsimp only at swept ⊢
    split
    · exact swept
    · rename_i none
      have cleaned : I (if o.deadCode then DeadCode.eliminate q.graph else (q.graph, 0)).1 q.changes
          (q.erased + (if o.deadCode then DeadCode.eliminate q.graph else (q.graph, 0)).2) q.fault.isSome := by
        split
        · rename_i deadCode
          rw [Known.of,none] at swept
          rw [none]
          exact clean deadCode _ _ _ swept
        · exact swept
      generalize (if o.deadCode then DeadCode.eliminate q.graph else (q.graph, 0)) = out at cleaned ⊢
      obtain ⟨h,n⟩ := out
      dsimp only at cleaned ⊢
      split
      · exact ih none cleaned
      · exact cleaned

theorem applyKeeps {g : Graph} {s : σ} (holds : I g 0 0 false) :
    I.of (apply (rules.map Pattern.ofRule) o g s) := by
  have going : (Progress.start g s).fault = none := rfl
  have ended : I.of (Greedy.sweeps (rules.map Pattern.ofRule) o.deadCode o.maxIterations.toNat (Progress.start g s)) :=
    sweepsKeep sweeps clean _ going holds
  unfold apply
  dsimp only
  split <;> exact ended

end Kept

/- What is counted: sweeps go on only if something was changed or erased. -/
section Counts

variable (rules)

theorem visitCounts (ids : List OpId) (changed : Bool) (p : Progress σ) :
    (visit (rules.map Pattern.ofRule) ids changed p).2.erased = p.erased ∧
      p.changes ≤ (visit (rules.map Pattern.ofRule) ids changed p).2.changes ∧
      ((visit (rules.map Pattern.ofRule) ids changed p).1 = true →
      (visit (rules.map Pattern.ofRule) ids changed p).2.fault = none → changed = true ∨
      p.changes < (visit (rules.map Pattern.ofRule) ids changed p).2.changes) := by
  induction ids generalizing changed p with
  | nil => exact ⟨rfl,le_rfl,fun changed _ => .inl changed⟩
  | cons id ids ih =>
    rw [visit]
    split
    · obtain ⟨attempt,erased,-,-,more⟩ := tryAtAttempted rules id p
      have le := attempt.le
      generalize tryAt id (rules.map Pattern.ofRule) p = out at erased le more ⊢
      obtain ⟨here,q⟩ := out
      dsimp only at erased le more ⊢
      split
      · rename_i f fault
        refine ⟨erased,le,fun _ whole => ?_⟩
        rw [fault] at whole
        cases whole
      · rename_i none
        obtain ⟨erased',le',more'⟩ := ih (changed || here) q
        refine ⟨erased'.trans erased,le.trans le',fun going whole => ?_⟩
        rcases more' going whole with both | less
        · rcases Bool.or_eq_true_iff.mp both with old | new
          · exact .inl old
          · exact .inr ((more new none).trans_le le')
        · exact .inr (le.trans_lt less)
    · exact ih changed p

theorem sweepsCounts (deadCode : Bool) (fuel : Nat) (p : Progress σ)
    (whole : (sweeps (rules.map Pattern.ofRule) deadCode fuel p).fault = none)
    (going : (sweeps (rules.map Pattern.ofRule) deadCode fuel p).converged = false) :
    p.changes + p.erased + fuel ≤ (sweeps (rules.map Pattern.ofRule) deadCode fuel p).changes +
      (sweeps (rules.map Pattern.ofRule) deadCode fuel p).erased := by
  induction fuel generalizing p with
  | zero => exact le_rfl
  | succ fuel ih =>
    rw [sweeps,sweep] at whole going ⊢
    obtain ⟨erased,le,more⟩ :=
      visitCounts rules p.graph.walkAll false { p with iterations := p.iterations + 1, declines := [] }
    generalize visit (rules.map Pattern.ofRule) _ _ _ = out at erased le more whole going ⊢
    obtain ⟨changed,q⟩ := out
    rcases q with ⟨graph,state,changes,iterations,converged,applied,erased',declines,events,_ | f⟩
    · dsimp only at erased le more whole going ⊢
      generalize (if deadCode then DeadCode.eliminate graph else (graph, 0)) = out at whole going ⊢
      obtain ⟨h,n⟩ := out
      dsimp only at whole going ⊢
      split at going
      · rename_i goes
        rw [if_pos goes] at whole ⊢
        have later := ih _ whole going
        have grown : p.changes < changes ∨ 0 < n := by
          rcases Bool.or_eq_true_iff.mp goes with changed | erasing
          · exact .inl ((more changed rfl).resolve_left nofun)
          · exact .inr (of_decide_eq_true erasing)
        dsimp only at later
        omega
      · cases going
    · cases whole

theorem applyCounts (o : Options) (g : Graph) (s : σ) (whole : (apply (rules.map Pattern.ofRule) o g s).fault = none)
    (going : (apply (rules.map Pattern.ofRule) o g s).converged = false) :
    o.maxIterations.toNat ≤ (apply (rules.map Pattern.ofRule) o g s).changes +
      (apply (rules.map Pattern.ofRule) o g s).erased := by
  unfold apply at whole going ⊢
  dsimp only at whole going ⊢
  cases ended : (sweeps (rules.map Pattern.ofRule) o.deadCode o.maxIterations.toNat (Progress.start g s)).fault with
  | some f =>
    rw [ended] at whole
    exact absurd (ended.symm.trans whole) nofun
  | none =>
    rw [ended] at going
    have counted := sweepsCounts rules o.deadCode o.maxIterations.toNat (Progress.start g s) ended going
    rwa [show (Progress.start g s).changes + (Progress.start g s).erased = 0 from rfl,Nat.zero_add] at counted

end Counts

end Greedy

end TileLower

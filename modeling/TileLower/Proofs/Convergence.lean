import TileLower.Proofs.Liveness

/-!
What a greedy run has come to when it reports that it converged: no rule has anything to do at any operation, and a
second run does nothing. Main statement: `Greedy.convergesToRest`.
-/
namespace TileLower

namespace DeadCode

variable {g : Graph}

theorem passesLe {fuel n} : n ≤ (passes fuel (g, n)).2 :=
  passesKeep (I := fun _ k => n ≤ k) (fun _ _ le => le.trans passLe) fuel (Nat.le_refl n)

theorem cleanOfNone (none : (eliminate g).2 = 0) : ∀ id ∈ g.walkAll, isDead g id = false := by
  rw [eliminate,passes] at none
  cases passed : pass g.walkAll.reverse (g, 0) with
  | mk h m =>
    rw [passed] at none
    dsimp only at none
    have nothing : m = 0 := by
      split at none
      · exact none
      · exact Nat.le_zero.mp (none ▸ passesLe)
    subst nothing
    obtain ⟨-,alive⟩ := passQuiet.mp passed
    exact fun id mem => alive id (List.mem_reverse.mpr mem)

end DeadCode

namespace Greedy

variable {σ : Type} {rules : List Rule} {g : Graph} {id : OpId} {ids : List OpId} {ds : List Diagnostic}

/-- A rule that has nothing to do at an operation: it declines, or drafts no change. -/
inductive Idle (r : Rule) (g : Graph) (id : OpId) : List Diagnostic → Prop where
  | declines {d : Diagnostic} {e : Draft} (drafted : r.draft ⟨r.name,id⟩ (Draft.ofGraph g) = .error (.error d) e)
      (isDecline : d.isDecline = true) : Idle r g id d.parts
  | nothing {d : Draft} (drafted : r.draft ⟨r.name,id⟩ (Draft.ofGraph g) = .ok () d) (unchanged : d.hasChanges = false) :
      Idle r g id []

/-- Rules that have nothing to do at an operation, with what they say as they decline. -/
inductive Rest (g : Graph) (id : OpId) : List Rule → List Diagnostic → Prop where
  | nil : Rest g id [] []
  | skip {r : Rule} {rules : List Rule} {ds : List Diagnostic} (other : ¬ (r.root = "" ∨ r.root = (g.op id).kind))
      (rest : Rest g id rules ds) : Rest g id (r :: rules) ds
  | idle {r : Rule} {rules : List Rule} {d ds : List Diagnostic} (applies : r.root = "" ∨ r.root = (g.op id).kind)
      (idle : Idle r g id d) (rest : Rest g id rules ds) : Rest g id (r :: rules) (d ++ ds)

inductive Still (rules : List Rule) (g : Graph) : List OpId → List Diagnostic → Prop where
  | nil : Still rules g [] []
  | gone {id : OpId} {ids : List OpId} {ds : List Diagnostic} (dead : g.isAlive id = false) (later : Still rules g ids ds) :
      Still rules g (id :: ids) ds
  | here {id : OpId} {ids : List OpId} {d ds : List Diagnostic} (alive : g.isAlive id = true) (rest : Rest g id rules d)
      (later : Still rules g ids ds) : Still rules g (id :: ids) (d ++ ds)

theorem Rest.each (rest : Rest g id rules ds) : ∀ r ∈ rules, r.root = "" ∨ r.root = (g.op id).kind → ∃ d, Idle r g id d := by
  induction rest with
  | nil => exact fun _ none => nomatch none
  | skip other _ ih => exact List.forall_mem_cons.mpr ⟨fun applies => absurd applies other,ih⟩
  | idle _ idle _ ih => exact List.forall_mem_cons.mpr ⟨fun _ => ⟨_,idle⟩,ih⟩

theorem Still.each (still : Still rules g ids ds) : ∀ id ∈ ids, g.isAlive id = true → ∃ d, Rest g id rules d := by
  induction still with
  | nil => exact fun _ none => nomatch none
  | gone dead _ ih =>
    exact List.forall_mem_cons.mpr ⟨fun alive => absurd alive (Bool.eq_false_iff.mp dead),ih⟩
  | here _ rest _ ih => exact List.forall_mem_cons.mpr ⟨fun _ => ⟨_,rest⟩,ih⟩

def Progress.noted (p : Progress σ) (ds : List Diagnostic) (es : List Event) : Progress σ :=
  { p with declines := p.declines ++ ds, events := p.events ++ es }

theorem Progress.notedTwice (p : Progress σ) (ds ds' : List Diagnostic) (es es' : List Event) :
    (p.noted ds es).noted ds' es' = p.noted (ds ++ ds') (es ++ es') := by
  simp [noted]

theorem Progress.notedNothing (p : Progress σ) : p.noted [] [] = p := by
  simp [noted]

theorem appliesIff {r : Rule} {kind} :
    (Pattern.ofRule r : Pattern σ).applies kind = true ↔ r.root = "" ∨ r.root = kind := by
  simp [Pattern.applies,Pattern.ofRule]

theorem Rest.tryAt {p : Progress σ} (rest : Rest p.graph id rules ds) :
    ∃ es, tryAt id (rules.map Pattern.ofRule) p = (false, p.noted ds es) := by
  generalize same : p.graph = g at rest
  induction rest generalizing p with
  | nil => exact ⟨[],by rw [p.notedNothing]; rfl⟩
  | skip other _ ih =>
    obtain ⟨es,ran⟩ := ih same
    refine ⟨es,?_⟩
    rw [List.map_cons,Greedy.tryAt,if_neg (by rwa [appliesIff,same]),ran]
  | @idle r rules d ds applies idle _ ih =>
    rw [List.map_cons,Greedy.tryAt,if_pos (by rwa [appliesIff,same])]
    cases idle with
    | @declines d e drafted isDecline =>
      simp only [Pattern.ofRule,same,drafted,isDecline,if_true]
      obtain ⟨es,ran⟩ := ih (p := p.noted d.parts [⟨"decline",[("pattern", r.name), ("op", g.location (some id)),
        ("reason", d.message)]⟩]) same
      rw [Progress.notedTwice] at ran
      refine ⟨_,Eq.trans ?_ ran⟩
      simp only [Progress.log,Progress.noted,← same]
    | nothing drafted unchanged =>
      simp only [Pattern.ofRule,same,drafted,unchanged,Bool.false_eq_true,if_false]
      obtain ⟨es,ran⟩ := ih same
      exact ⟨es,by rw [List.nil_append,← ran,← same]⟩

theorem restOfTryAt {p : Progress σ} (quiet : (tryAt id (rules.map Pattern.ofRule) p).1 = false)
    (whole : (tryAt id (rules.map Pattern.ofRule) p).2.fault = none) : ∃ ds, Rest p.graph id rules ds := by
  induction rules generalizing p with
  | nil => exact ⟨[],.nil⟩
  | cons r rules ih =>
    rw [List.map_cons,tryAt] at quiet whole
    split at quiet
    · rename_i applies
      rw [if_pos applies] at whole
      rw [appliesIff] at applies
      cases drafted : r.draft ⟨r.name,id⟩ (Draft.ofGraph p.graph) with
      | error f d =>
        simp only [Pattern.ofRule,drafted] at quiet whole
        cases f with
        | abort => cases whole
        | error cause =>
          dsimp only at quiet whole
          split at quiet
          · rename_i isDecline
            rw [if_pos isDecline] at whole
            obtain ⟨ds,rest⟩ := ih quiet whole
            exact ⟨_,.idle applies (.declines drafted isDecline) rest⟩
          · rename_i notDecline
            rw [if_neg notDecline] at whole
            cases whole
      | ok u d =>
        simp only [Pattern.ofRule,drafted] at quiet whole
        split at quiet
        · cases quiet
        · rename_i unchanged
          rw [if_neg unchanged] at whole
          obtain ⟨ds,rest⟩ := ih quiet whole
          exact ⟨_,.idle applies (.nothing drafted (Bool.not_eq_true _ ▸ unchanged)) rest⟩
    · rename_i other
      rw [if_neg other] at whole
      obtain ⟨ds,rest⟩ := ih quiet whole
      exact ⟨ds,.skip (fun applies => other (appliesIff.mpr applies)) rest⟩

theorem Still.visit {p : Progress σ} (going : p.fault = none) (still : Still rules p.graph ids ds) (changed : Bool) :
    ∃ es, visit (rules.map Pattern.ofRule) ids changed p = (changed, p.noted ds es) := by
  generalize same : p.graph = g at still
  induction still generalizing p with
  | nil => exact ⟨[],by rw [p.notedNothing]; rfl⟩
  | gone dead _ ih =>
    obtain ⟨es,ran⟩ := ih going same
    exact ⟨es,by rw [Greedy.visit,same,dead,← ran]; rfl⟩
  | here alive rest _ ih =>
    subst same
    obtain ⟨es,tried⟩ := rest.tryAt
    obtain ⟨es',ran⟩ := ih (p := p.noted _ es) going rfl
    rw [Progress.notedTwice] at ran
    refine ⟨es ++ es',?_⟩
    rw [Greedy.visit,if_pos alive,tried]
    dsimp only
    rw [show (p.noted _ es).fault = none from going,Bool.or_false]
    exact ran

theorem visitChanged (pats : List (Pattern σ)) (p : Progress σ) : (visit pats ids true p).1 = true := by
  induction ids generalizing p with
  | nil => rfl
  | cons id ids ih =>
    rw [visit]
    split
    · dsimp only
      split
      · rfl
      · exact ih _
    · exact ih p

theorem stillOfVisit {p : Progress σ} (going : p.fault = none)
    (quiet : (visit (rules.map Pattern.ofRule) ids false p).1 = false)
    (whole : (visit (rules.map Pattern.ofRule) ids false p).2.fault = none) : ∃ ds, Still rules p.graph ids ds := by
  induction ids generalizing p with
  | nil => exact ⟨[],.nil⟩
  | cons id ids ih =>
    rw [visit] at quiet whole
    split at quiet
    · rename_i alive
      rw [if_pos alive] at whole
      cases tried : tryAt id (rules.map Pattern.ofRule) p with
      | mk here q =>
        rw [tried] at quiet whole
        dsimp only at quiet whole
        cases fault : q.fault with
        | some f =>
          rw [fault] at whole
          cases fault.symm.trans whole
        | none =>
          rw [fault] at quiet whole
          dsimp only at quiet whole
          cases here with
          | true => cases quiet.symm.trans (visitChanged _ q)
          | false =>
            obtain ⟨d,rest⟩ := restOfTryAt (p := p) (by rw [tried]) (by rw [tried,fault])
            obtain ⟨es,ran⟩ := rest.tryAt
            cases tried.symm.trans ran
            obtain ⟨ds,still⟩ := ih fault quiet whole
            exact ⟨_,.here alive rest still⟩
    · rename_i dead
      rw [if_neg dead] at whole
      obtain ⟨ds,still⟩ := ih going quiet whole
      exact ⟨ds,.gone (Bool.not_eq_true _ ▸ dead) still⟩

/- What each attempt keeps: a run is not over before its last sweep, and each rewrite is counted for its rule. -/
section Counts

variable (rules)

theorem visitTallied (ids : List OpId) (changed : Bool) (p : Progress σ) (going : p.fault = none) :
    (visit (rules.map Pattern.ofRule) ids changed p).2.converged = p.converged ∧
      (p.Tallied → (visit (rules.map Pattern.ofRule) ids changed p).2.Tallied) := by
  refine visitKeeps (I := fun q => q.converged = p.converged ∧ (p.Tallied → q.Tallied)) (fun id _ q _ holds _ => ?_)
    changed going ⟨rfl,fun tallied => tallied⟩
  obtain ⟨-,-,converged,tallied,-⟩ := tryAtAttempted rules id q
  exact ⟨converged.trans holds.1,fun start => tallied (holds.2 start)⟩

theorem sweepsTallied (deadCode : Bool) (fuel : Nat) (p : Progress σ) (going : p.fault = none) (tallied : p.Tallied) :
    (sweeps (rules.map Pattern.ofRule) deadCode fuel p).Tallied := by
  induction fuel generalizing p with
  | zero => exact tallied
  | succ fuel ih =>
    have swept := (visitTallied rules p.graph.walkAll false
      { p with iterations := p.iterations + 1, declines := [] } going).2 tallied
    rw [sweeps,sweep]
    generalize visit (rules.map Pattern.ofRule) _ _ _ = out at swept ⊢
    obtain ⟨changed,q⟩ := out
    dsimp only at swept ⊢
    split
    · exact swept
    · rename_i none
      generalize (if deadCode then DeadCode.eliminate q.graph else (q.graph, 0)) = out
      obtain ⟨h,n⟩ := out
      dsimp only
      split
      · exact ih _ none swept
      · exact swept

theorem applyTallied (o : Options) (g : Graph) (s : σ) : (apply (rules.map Pattern.ofRule) o g s).Tallied := by
  have tallied := sweepsTallied rules o.deadCode o.maxIterations.toNat (Progress.start g s) rfl
    ⟨OrderedMap.inStepEmpty,rfl⟩
  unfold apply
  dsimp only
  split <;> exact tallied

end Counts

structure AtRest (rules : List Rule) (deadCode : Bool) (g : Graph) (ds : List Diagnostic) : Prop where
  still : Still rules g g.walkAll ds
  clean : deadCode = true → ∀ id ∈ g.walkAll, DeadCode.isDead g id = false

theorem sweepsSettle {deadCode fuel} {p : Progress σ} (going : p.fault = none) (started : p.converged = false)
    (whole : (sweeps (rules.map Pattern.ofRule) deadCode fuel p).fault = none)
    (converged : (sweeps (rules.map Pattern.ofRule) deadCode fuel p).converged = true) :
    0 < fuel ∧ AtRest rules deadCode (sweeps (rules.map Pattern.ofRule) deadCode fuel p).graph
      (sweeps (rules.map Pattern.ofRule) deadCode fuel p).declines := by
  induction fuel generalizing p with
  | zero => cases started.symm.trans converged
  | succ fuel ih =>
    refine ⟨Nat.succ_pos fuel,?_⟩
    let first : Progress σ := { p with iterations := p.iterations + 1, declines := [] }
    have same : (visit (rules.map Pattern.ofRule) first.graph.walkAll false first).2.converged = false :=
      (visitTallied _ _ false first going).1.trans started
    have quiet := @stillOfVisit _ rules first.graph.walkAll first going
    rw [sweeps,show sweep (rules.map Pattern.ofRule) { p with iterations := p.iterations + 1 } =
      visit (rules.map Pattern.ofRule) first.graph.walkAll false first from rfl] at whole converged ⊢
    cases visited : visit (rules.map Pattern.ofRule) first.graph.walkAll false first with
    | mk changed q =>
      rw [visited] at whole converged same quiet
      dsimp only at whole converged same quiet ⊢
      cases fault : q.fault with
      | some f =>
        rw [fault] at whole
        cases fault.symm.trans whole
      | none =>
        rw [fault] at whole converged
        generalize cleaned : (if deadCode then DeadCode.eliminate q.graph else (q.graph, 0)) = out at whole converged ⊢
        obtain ⟨h,n⟩ := out
        dsimp only at whole converged ⊢
        split at converged
        · rename_i more
          rw [if_pos more] at whole ⊢
          exact (ih (p := { q with graph := h, erased := q.erased + n, fault := none }) rfl same whole converged).2
        · rename_i nothing
          rw [if_neg nothing]
          rw [Bool.or_eq_true,not_or,Bool.not_eq_true,decide_eq_true_iff,Nat.not_lt,Nat.le_zero] at nothing
          obtain ⟨rfl,rfl⟩ := nothing
          obtain ⟨ds,still⟩ := quiet rfl fault
          obtain ⟨es,ran⟩ := still.visit (p := first) going false
          obtain ⟨-,rfl⟩ := Prod.mk.inj (visited.symm.trans ran)
          cases deadCode with
          | false =>
            cases cleaned
            exact ⟨still,by simp⟩
          | true =>
            rw [if_pos rfl] at cleaned
            have clean := DeadCode.cleanOfNone (congrArg Prod.snd cleaned)
            cases cleaned.symm.trans (DeadCode.eliminateClean clean)
            exact ⟨still,fun _ => clean⟩

theorem AtRest.apply {o : Options} (settled : AtRest rules o.deadCode g ds) (some_ : 0 < o.maxIterations.toNat)
    (s : σ) :
    ∃ es, Greedy.apply (rules.map Pattern.ofRule) o g s = ⟨g,s,0,1,true,OrderedMap.empty,0,ds,es,none⟩ := by
  obtain ⟨fuel,fuelIs⟩ := Nat.exists_eq_succ_of_ne_zero (Nat.ne_of_gt some_)
  let first : Progress σ := { Progress.start g s with iterations := 1 }
  obtain ⟨es,ran⟩ := settled.still.visit (p := first) rfl false
  have cleaned : (if o.deadCode then DeadCode.eliminate g else (g, 0)) = (g, 0) := by
    split
    · rename_i on
      exact DeadCode.eliminateClean (settled.clean on)
    · rfl
  have swept : sweeps (rules.map Pattern.ofRule) o.deadCode (fuel + 1) (Progress.start g s) =
      { first.noted ds es with converged := true } := by
    have once : sweep (rules.map Pattern.ofRule) { Progress.start g s with iterations := (Progress.start g s).iterations + 1 } =
      (false, first.noted ds es) := ran
    rw [sweeps,once]
    dsimp only [Progress.noted,first,Progress.start]
    rw [cleaned]
    rfl
  unfold Greedy.apply
  rw [fuelIs,swept]
  exact ⟨_,rfl⟩

theorem applySettles {o : Options} {s : σ} (whole : (apply (rules.map Pattern.ofRule) o g s).fault = none)
    (converged : (apply (rules.map Pattern.ofRule) o g s).converged = true) : 0 < o.maxIterations.toNat ∧
      AtRest rules o.deadCode (apply (rules.map Pattern.ofRule) o g s).graph
        (apply (rules.map Pattern.ofRule) o g s).declines := by
  unfold apply at whole converged ⊢
  dsimp only at whole converged ⊢
  cases fault : (sweeps (rules.map Pattern.ofRule) o.deadCode o.maxIterations.toNat (Progress.start g s)).fault with
  | some f =>
    rw [fault] at whole
    cases fault.symm.trans whole
  | none =>
    rw [fault] at whole converged
    exact sweepsSettle rfl rfl fault converged

/-- A run that converged has come to a function on which no rule has anything to do at any operation that it is for, and,
if dead code is eliminated, on which all results are used; a second run changes nothing and says the same. In every run,
converged or not, the rewrites are those counted for the rules. -/
theorem convergesToRest (listed : ∀ r ∈ rules, Catalogue.Listed r) (o : Options) (g : Graph) (s : σ) :
    let p := apply (rules.map Pattern.ofRule) o g s
    p.changes = p.applied.values.sum ∧ (p.fault = none → p.converged = true →
      (∀ t : σ, ∃ es, apply (rules.map Pattern.ofRule) o p.graph t = ⟨p.graph,t,0,1,true,.empty,0,p.declines,es,none⟩) ∧
      (g.verify = .ok () → g.walkAll.Nodup →
        (∀ r ∈ rules, ∀ id ∈ p.graph.walkAll, r.root = "" ∨ r.root = (p.graph.op id).kind → ∃ d, Idle r p.graph id d) ∧
        (o.deadCode = true → ∀ id ∈ p.graph.walkAll, (p.graph.op id).results ≠ [] →
          ∃ v ∈ p.graph.resultsOf id, p.graph.hasUses (some v) = true))) := by
  refine ⟨(applyTallied _ o g s).2,fun whole converged => ?_⟩
  obtain ⟨some_,settled⟩ := applySettles whole converged
  refine ⟨settled.apply some_,fun ok once => ?_⟩
  have formed := applyFormed listed o s (Graph.wellFormedOfVerify ok once)
  have alive (id : OpId) (mem : id ∈ (apply (rules.map Pattern.ofRule) o g s).graph.walkAll) :
      (apply (rules.map Pattern.ofRule) o g s).graph.isAlive id = true := by
    obtain ⟨c,scope,place⟩ := Graph.atOfWalk .body mem
    rw [Graph.isAlive,place.block formed]
    rfl
  refine ⟨fun r mem id walked applies => ?_,fun on id walked results => ?_⟩
  · obtain ⟨d,rest⟩ := settled.still.each id walked (alive id walked)
    exact rest.each r mem applies
  · have living := settled.clean on id walked
    rw [DeadCode.isDead,alive id walked] at living
    simp only [Bool.and_true,Bool.and_eq_false_iff,Bool.not_eq_false',List.isEmpty_iff,results,false_or] at living
    exact List.any_eq_true.mp living

theorem convergesToRestProduct : let p := apply [Pattern.ofRule (Blocking.matmul [1, 2, 1])] ⟨10,true⟩ (product [0, 1]) ()
    p.changes = 1 ∧ p.fault = none ∧ p.converged = true ∧ (product [0, 1]).verify = .ok () ∧ (product [0, 1]).walkAll.Nodup ∧
    p.changes = p.applied.values.sum ∧
    (∀ t : Unit, ∃ es, apply [Pattern.ofRule (Blocking.matmul [1, 2, 1])] ⟨10,true⟩ p.graph t =
      ⟨p.graph,t,0,1,true,.empty,0,p.declines,es,none⟩) ∧
    (∀ r ∈ [Blocking.matmul [1, 2, 1]], ∀ id ∈ p.graph.walkAll, r.root = "" ∨ r.root = (p.graph.op id).kind →
      ∃ d, Idle r p.graph id d) ∧
    (true = true → ∀ id ∈ p.graph.walkAll, (p.graph.op id).results ≠ [] →
      ∃ v ∈ p.graph.resultsOf id, p.graph.hasUses (some v) = true) := by
  have listed : ∀ r ∈ [Blocking.matmul [1, 2, 1]], Catalogue.Listed r := fun r mem =>
    ⟨[1, 2, 1],List.mem_append_left _ (List.mem_singleton.mp mem ▸ .head _)⟩
  obtain ⟨counted,rests⟩ := convergesToRest listed ⟨10,true⟩ (product [0, 1]) ()
  have whole : (apply [Pattern.ofRule (Blocking.matmul [1, 2, 1])] ⟨10,true⟩ (product [0, 1]) ()).fault = none :=
    Option.isNone_iff_eq_none.mp (by decide +kernel)
  have converged : (apply [Pattern.ofRule (Blocking.matmul [1, 2, 1])] ⟨10,true⟩ (product [0, 1]) ()).converged = true := by
    decide +kernel
  have ok : (product [0, 1]).verify = .ok () := by decide +kernel
  have once : (product [0, 1]).walkAll.Nodup := by decide +kernel
  obtain ⟨again,rests⟩ := rests whole converged
  obtain ⟨idle,used⟩ := rests ok once
  exact ⟨by decide +kernel,whole,converged,ok,once,counted,again,idle,used⟩

theorem convergedRepeated : let p := apply [] ⟨10,true⟩ DeadCode.repeated ()
    DeadCode.repeated.verify = .ok () ∧ p.fault.isNone = true ∧ p.converged = true ∧ p.graph.walkAll = [0, 1] ∧
      (p.graph.op 0).results.length = 1 ∧ p.graph.hasUses (some (.result 0 0)) = false := by
  decide +kernel

end Greedy

end TileLower

import TileLower.Proofs.Checks
import TileLower.Proofs.Sweeps

/-!
Runs that do not stop. A rule may fail to apply, and then declines: any other fault of its draft, and any fault of a
commit, stops the run.
-/
namespace TileLower

open List Draft

namespace Outcome

variable {β γ : Type}

theorem bindAnswers {x : Outcome β} {f : β → Outcome γ} (first : x ≠ .abort) (rest : ∀ b, x = .ok b → f b ≠ .abort) :
    x >>= f ≠ .abort := by
  cases x with
  | error e =>
    cases e with
    | abort => exact absurd rfl first
    | error cause => exact nofun
  | ok b => exact rest b rfl

theorem failAnswers {message} : (fail message : Outcome β) ≠ .abort := nofun

theorem withinAnswers {message : String} {x : Outcome β} (answers : x ≠ .abort) : within message x ≠ .abort := by
  unfold within
  split
  · exact nofun
  · exact answers

theorem checkAnswers {c : Prop} [Decidable c] {message : String} {f : β → Outcome γ} {x : Outcome γ}
    (rest : ¬ c → x ≠ .abort) : (if c then fail message >>= f else x) ≠ .abort := by
  split
  · exact nofun
  · exact rest ‹_›

end Outcome

def Fault.Declines : Fault → Prop
  | .abort => False
  | .error cause => cause.isDecline = true

theorem Fault.declinesDeclined (pattern kind reason : String) : (Fault.error (.declined pattern kind reason)).Declines := by
  simp [Declines,Diagnostic.isDecline]

def Drafting.Ends {β : Type} (Q : β → Draft → Prop) (m : Drafting β) (d : Draft) : Prop :=
  match m d with
  | .ok b e => Q b e
  | .error f _ => f.Declines

namespace Drafting.Ends

variable {β γ : Type} {Q : β → Draft → Prop} {R : γ → Draft → Prop} {m : Drafting β} {k : β → Drafting γ} {s : Site}
  {d e : Draft} {b : β} {c : Prop} [Decidable c] {reason : String}

theorem done (ok : m d = .ok b e) (holds : Q b e) : Ends Q m d := by
  rw [Ends,ok]
  exact holds

theorem declined : Ends Q (s.decline reason) d := Fault.declinesDeclined ..

theorem bind (first : Ends Q m d) (rest : ∀ b e, Q b e → Ends R (k b) e) : Ends R (m >>= k) d := by
  unfold Ends at first ⊢
  simp only [Bind.bind,EStateM.bind]
  cases ran : m d with
  | ok b e =>
    rw [ran] at first
    exact rest b e first
  | error f e =>
    rw [ran] at first
    exact first

theorem next (ok : m d = .ok b e) (rest : Ends R (k b) e) : Ends R (m >>= k) d := by
  rw [Ends,Step.bindOfOk ok]
  exact rest

theorem mono {P} (ends : Ends P m d) (weaker : ∀ b e, P b e → Q b e) : Ends Q m d := by
  unfold Ends at ends ⊢
  split at ends
  · exact weaker _ _ ends
  · exact ends

theorem check {f : β → Drafting γ} {x : Drafting γ} (rest : ¬ c → Ends R x d) :
    Ends R (if c then s.decline reason >>= f else x) d := by
  split
  · exact Fault.declinesDeclined ..
  · exact rest ‹_›

theorem guard {Q} (passed : ¬ c → Q () d) : Ends Q (if c then s.decline reason else pure ()) d := by
  split
  · exact Fault.declinesDeclined ..
  · exact passed ‹_›

theorem attempt {lead o} (answers : o ≠ .abort) (holds : ∀ b, o = .ok b → Q b d) : Ends Q (s.attempt lead o) d := by
  cases o with
  | ok b => exact holds b rfl
  | error f =>
    cases f with
    | abort => exact absurd rfl answers
    | error cause => exact Fault.declinesDeclined ..

theorem drafted (ends : Ends Q m d) (ok : m d = .ok b e) : Q b e := by
  rw [Ends,ok] at ends
  exact ends

end Drafting.Ends

def Drafting.Stops {β : Type} (m : Drafting β) (d : Draft) : Prop := ∃ f e, m d = .error f e ∧ ¬ f.Declines

namespace Drafting.Stops

variable {β γ : Type} {m : Drafting β} {k : β → Drafting γ} {d e : Draft} {b : β}

theorem next (ok : m d = .ok b e) (rest : Stops (k b) e) : Stops (m >>= k) d := by
  rw [Stops,Step.bindOfOk ok]
  exact rest

theorem first (stops : Stops m d) : Stops (m >>= k) d := by
  obtain ⟨f,e,ran,kind⟩ := stops
  refine ⟨f,e,?_,kind⟩
  simp only [bind,EStateM.bind,ran]

end Drafting.Stops

namespace Greedy

variable {σ : Type} {pats : List (Pattern σ)} {rules : List Rule}

def Tried (r : Rule) (g : Graph) (id : OpId) : Prop := r.root = "" ∨ r.root = (g.op id).kind

theorem ofRuleApplies {r} {g : Graph} {id} :
    (Pattern.ofRule (σ := σ) r).applies (g.op id).kind = true ↔ Tried r g id := by
  simp [Pattern.applies,Pattern.ofRule,Tried]

theorem tryAtGoes {id} {p : Progress σ}
    (ends : ∀ r ∈ rules, Tried r p.graph id → Drafting.Ends (fun _ d => (d.commit id).fault = none)
      (r.draft ⟨r.name,id⟩) (ofGraph p.graph)) : (tryAt id (rules.map Pattern.ofRule) p).2.fault = p.fault := by
  induction rules generalizing p with
  | nil => rfl
  | cons r rules ih =>
    obtain ⟨here,later⟩ := forall_mem_cons.mp ends
    rw [map_cons,tryAt]
    split
    · rename_i applies
      have ends := here (ofRuleApplies.mp applies)
      cases drafted : r.draft ⟨r.name,id⟩ (ofGraph p.graph) with
      | error f d =>
        rw [Drafting.Ends,drafted] at ends
        simp only [Pattern.ofRule,drafted]
        cases f with
        | abort => exact ends.elim
        | error cause =>
          have declines : cause.isDecline = true := ends
          dsimp only
          rw [if_pos declines]
          exact ih later
      | ok u d =>
        have whole := ends.drafted drafted
        simp only [Pattern.ofRule,drafted]
        split
        · simp only [commit,whole]
          rfl
        · exact ih later
    · exact ih later

theorem tryAtStops {id} {p : Progress σ}
    (stops : ∃ r ∈ rules, Tried r p.graph id ∧ Drafting.Stops (r.draft ⟨r.name,id⟩) (ofGraph p.graph))
    (fails : ∀ r ∈ rules, Tried r p.graph id → Drafting.Stops (r.draft ⟨r.name,id⟩) (ofGraph p.graph) ∨
      Drafting.Ends (fun _ _ => False) (r.draft ⟨r.name,id⟩) (ofGraph p.graph)) :
    (tryAt id (rules.map Pattern.ofRule) p).2.fault.isSome = true := by
  induction rules generalizing p with
  | nil =>
    obtain ⟨r,mem,-⟩ := stops
    cases mem
  | cons r rules ih =>
    obtain ⟨here,later⟩ := forall_mem_cons.mp fails
    obtain ⟨r',mem,tried,stuck⟩ := stops
    have skip (declines : Drafting.Stops (r.draft ⟨r.name,id⟩) (ofGraph p.graph) → False) : r' ∈ rules := by
      rcases mem_cons.mp mem with rfl | mem
      · exact (declines stuck).elim
      · exact mem
    rw [map_cons,tryAt]
    split
    · rename_i applies
      rcases here (ofRuleApplies.mp applies) with ⟨f,d,drafted,stops⟩ | declines
      · simp only [Pattern.ofRule,drafted]
        cases f with
        | abort => rfl
        | error cause =>
          have stops : ¬ cause.isDecline = true := stops
          dsimp only
          rw [if_neg stops]
          obtain ⟨c,same⟩ := stopWithinOk p ("pattern " ++ r.name ++ " failed on " ++ p.graph.location (some id)) (.error cause)
          rw [same]
          rfl
      · unfold Drafting.Ends at declines
        simp only [Pattern.ofRule]
        cases drafted : r.draft ⟨r.name,id⟩ (ofGraph p.graph) with
        | ok b e =>
          rw [drafted] at declines
          exact declines.elim
        | error f e =>
          rw [drafted] at declines
          cases f with
          | abort => exact declines.elim
          | error cause =>
            have declines : cause.isDecline = true := declines
            dsimp only
            rw [if_pos declines]
            refine ih ⟨r',skip ?_,tried,stuck⟩ later
            rintro ⟨f,e',drafted',stops⟩
            cases drafted.symm.trans drafted'
            exact stops declines
    · rename_i skipped
      rcases mem_cons.mp mem with rfl | mem
      · exact absurd (ofRuleApplies.mpr tried) skipped
      · exact ih ⟨r',mem,tried,stuck⟩ later

theorem visitGoes {J : Graph → Prop} {ids : List OpId}
    (attempt : ∀ id ∈ ids, ∀ p : Progress σ, p.fault = none → J p.graph → p.graph.isAlive id = true →
      (tryAt id pats p).2.fault = none ∧ J (tryAt id pats p).2.graph)
    (changed : Bool) {p : Progress σ} (going : p.fault = none) (holds : J p.graph) :
    (visit pats ids changed p).2.fault = none ∧ J (visit pats ids changed p).2.graph :=
  visitKeeps (I := fun p => p.fault = none ∧ J p.graph)
    (fun id mem p going holds alive => attempt id mem p going holds.2 alive) changed going ⟨going,holds⟩

theorem visitStops {J : Graph → Prop} {ids : List OpId} {id : OpId} (mem : id ∈ ids)
    (attempt : ∀ id ∈ ids, ∀ p : Progress σ, J p.graph → p.graph.isAlive id = true →
      (tryAt id pats p).2.fault = none → J (tryAt id pats p).2.graph)
    (stuck : ∀ p : Progress σ, J p.graph → p.graph.isAlive id = true ∧ (tryAt id pats p).2.fault.isSome = true)
    (changed : Bool) {p : Progress σ} (holds : J p.graph) : (visit pats ids changed p).2.fault.isSome = true := by
  induction ids generalizing changed p with
  | nil => cases mem
  | cons i ids ih =>
    obtain ⟨here,later⟩ := forall_mem_cons.mp attempt
    rw [visit]
    split
    · rename_i alive
      dsimp only
      split
      · rename_i f fault
        rw [fault]
        rfl
      · rename_i none
        rcases mem_cons.mp mem with rfl | mem
        · have some := (stuck p holds).2
          rw [none] at some
          cases some
        · exact ih mem later _ (here p holds alive none)
    · rename_i dead
      rcases mem_cons.mp mem with rfl | mem
      · exact absurd (stuck p holds).1 dead
      · exact ih mem later _ holds

theorem attemptGoes {J : Graph → Prop} {id : OpId} {p : Progress σ} (going : p.fault = none) (holds : J p.graph)
    (ends : ∀ r ∈ rules, Tried r p.graph id →
      Drafting.Ends (fun _ d => (d.commit id).fault = none ∧ J (d.commit id).graph) (r.draft ⟨r.name,id⟩)
        (ofGraph p.graph)) :
    (tryAt id (rules.map Pattern.ofRule) p).2.fault = none ∧ J (tryAt id (rules.map Pattern.ofRule) p).2.graph := by
  have goes : (tryAt id (rules.map Pattern.ofRule) p).2.fault = none := by
    rw [← going]
    exact tryAtGoes fun r mem tried => (ends r mem tried).mono fun _ _ commits => commits.1
  refine ⟨goes,?_⟩
  cases (tryAtAttempted rules id p).attempt with
  | nothing graph => exact graph ▸ holds
  | committed mem drafted graph whole changes fault applies =>
    rw [graph]
    exact ((ends _ mem applies).drafted drafted).2
  | broken mem drafted graph broken changes fault =>
    rw [goes] at fault
    cases fault

theorem applyGoes {J : Graph → Prop}
    (attempt : ∀ g, J g → ∀ id ∈ g.walkAll, ∀ p : Progress σ, p.fault = none → J p.graph → p.graph.isAlive id = true →
      (tryAt id (rules.map Pattern.ofRule) p).2.fault = none ∧ J (tryAt id (rules.map Pattern.ofRule) p).2.graph)
    (clean : ∀ g, J g → J (DeadCode.eliminate g).1) {g : Graph} (holds : J g) (o : Options) (s : σ) :
    (apply (rules.map Pattern.ofRule) o g s).fault = none ∧ J (apply (rules.map Pattern.ofRule) o g s).graph := by
  have kept : Known.of (fun g _ _ stopped => stopped = false ∧ J g) (apply (rules.map Pattern.ofRule) o g s) := by
    refine applyKeeps (fun p going holds => ?_) (fun _ g _ _ holds => ⟨rfl,clean g holds.2⟩) ⟨rfl,holds⟩
    have holds : J p.graph := holds.2
    obtain ⟨going,holds⟩ := visitGoes (attempt p.graph holds) false going holds
    exact ⟨Option.isSome_eq_false_iff.mpr (Option.isNone_iff_eq_none.mpr going),holds⟩
  exact ⟨Option.isNone_iff_eq_none.mp (Option.isSome_eq_false_iff.mp kept.1),kept.2⟩

theorem applyStops {o : Options} (some : 0 < o.maxIterations) {g : Graph} {s}
    (stops : ∀ p : Progress σ, p.graph = g → (visit pats g.walkAll false p).2.fault.isSome = true) :
    (apply pats o g s).fault.isSome = true := by
  obtain ⟨n,iterations⟩ : ∃ n, o.maxIterations.toNat = n + 1 := Nat.exists_eq_add_one.mpr (by omega)
  have stopped : (sweeps pats o.deadCode o.maxIterations.toNat (Progress.start g s)).fault.isSome = true := by
    rw [iterations,sweeps,sweep]
    have stopped := stops { Progress.start g s with iterations := 0 + 1, declines := [] } rfl
    obtain ⟨f,fault⟩ := Option.isSome_iff_exists.mp stopped
    simp only [show (Progress.start g s).iterations = 0 from rfl,show (Progress.start g s).graph = g from rfl] at fault ⊢
    simp only [fault]
    rfl
  unfold apply
  dsimp only
  split
  · exact stopped
  · rename_i none
    rw [none] at stopped
    cases stopped

end Greedy

end TileLower

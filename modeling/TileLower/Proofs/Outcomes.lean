import Mathlib
import TileLower.Eval.Machine

/-! Computations that succeed, taken apart step by step: outcomes, drafts and steps of a machine. -/
namespace TileLower

namespace Outcome

variable {β γ : Type}

instance decideOk [DecidableEq β] (x : Outcome β) (b : β) : Decidable (x = .ok b) :=
  match x with
  | .ok c => decidable_of_iff (c = b) ⟨congrArg _,Except.ok.inj⟩
  | .error _ => isFalse nofun

theorem bindOk {x : Outcome β} {f : β → Outcome γ} {c : γ} : (x >>= f) = .ok c ↔ ∃ b, x = .ok b ∧ f b = .ok c := by
  cases x with
  | error e => simp [bind,Except.bind]
  | ok b => simp [bind,Except.bind]

@[simp] theorem bindOfOk (b : β) (f : β → Outcome γ) : ((Except.ok b : Outcome β) >>= f) = f b := rfl

@[simp] theorem pureOk {b c} : (pure b : Outcome β) = .ok c ↔ b = c := by
  simp [pure,Except.pure]

@[simp] theorem failOk {m b} : ¬ (Outcome.fail m : Outcome β) = .ok b := nofun

@[simp] theorem abortOk {b} : ¬ (Outcome.abort : Outcome β) = .ok b := nofun

@[simp] theorem ofOptionOk {o : Option β} {b : β} : Outcome.ofOption o = .ok b ↔ o = some b := by
  cases o with
  | none => simp [Outcome.ofOption,Outcome.abort]
  | some a => simp [Outcome.ofOption]

theorem checkOk {c : Prop} [Decidable c] {x : Outcome β} {f : β → Outcome γ} {k : Outcome γ} {b : γ}
    (faults : ∀ u, x ≠ .ok u) : (if c then x >>= f else k) = .ok b ↔ ¬ c ∧ k = .ok b := by
  by_cases h : c
  · simp only [if_pos h,bindOk]
    exact ⟨fun ⟨u,ok,_⟩ => absurd ok (faults u),fun ⟨not,_⟩ => absurd h not⟩
  · simp [h]

section All

variable {β γ : Type} {f : β → Outcome γ}

theorem allOk (all : List β → Outcome (List γ)) (none : all [] = .ok []) (more : ∀ x xs, all (x :: xs) = do
      let y ← f x
      let ys ← all xs
      .ok (y :: ys)) {xs : List β} {ys : List γ} : all xs = .ok ys ↔ List.Forall₂ (fun x y => f x = .ok y) xs ys := by
  induction xs generalizing ys with
  | nil => simp [none,eq_comm]
  | cons x xs ih =>
    simp only [more,Outcome.bindOk,List.forall₂_cons_left_iff,← ih]
    exact ⟨fun ⟨y,here,ys,rest,same⟩ => ⟨y,ys,here,rest,(Except.ok.inj same).symm⟩,
      fun ⟨y,ys,here,rest,same⟩ => ⟨y,here,ys,rest,congrArg Except.ok same.symm⟩⟩

theorem allSucceed {xs} (each : ∀ x ∈ xs, ∃ y, f x = .ok y) : ∃ ys, List.Forall₂ (fun x y => f x = .ok y) xs ys := by
  induction xs with
  | nil => exact ⟨[],.nil⟩
  | cons x xs ih =>
    obtain ⟨⟨y,here⟩,rest⟩ := List.forall_mem_cons.mp each
    obtain ⟨ys,all⟩ := ih rest
    exact ⟨y :: ys,.cons here all⟩

theorem mapMSucceeds {xs : List β} (each : ∀ x ∈ xs, ∃ y, f x = .ok y) : ∃ ys, xs.mapM f = .ok ys := by
  obtain ⟨ys,all⟩ := allSucceed each
  exact ⟨ys,(allOk (·.mapM f) rfl fun _ _ => List.mapM_cons).mpr all⟩

end All

end Outcome

/- Drafts and machines take steps in the same monad. -/
namespace Step

variable {σ β γ : Type}

theorem bindOk {x : EStateM Fault σ β} {f : β → EStateM Fault σ γ} {c : γ} {s t : σ} :
    (x >>= f) s = .ok c t ↔ ∃ b u, x s = .ok b u ∧ f b u = .ok c t := by
  simp only [bind,EStateM.bind]
  cases x s with
  | error e u => simp
  | ok b u => simp

theorem bindOfOk {x b s u} (ok : x s = .ok b u) (f : β → EStateM Fault σ γ) : (x >>= f) s = f b u := by
  simp only [bind,EStateM.bind,ok]

theorem pass {x : EStateM Fault σ β} {f : β → EStateM Fault σ γ} {c : γ} {s t : σ} {P : β → Prop}
    (reads : ∀ {b u}, x s = .ok b u → P b ∧ u = s) (ok : (x >>= f) s = .ok c t) : ∃ b, P b ∧ f b s = .ok c t := by
  obtain ⟨b,u,first,rest⟩ := bindOk.mp ok
  obtain ⟨found,rfl⟩ := reads first
  exact ⟨b,found,rest⟩

theorem read {x : EStateM Fault σ β} {f : β → EStateM Fault σ γ} {c : γ} {s t : σ} {P : β → Prop}
    (reads : ∀ {b u}, x s = .ok b u ↔ P b ∧ s = u) (ok : (x >>= f) s = .ok c t) : ∃ b, P b ∧ f b s = .ok c t :=
  pass (fun first => (reads.mp first).imp_right Eq.symm) ok

theorem skip {x : EStateM Fault σ β} {f : β → EStateM Fault σ γ} {c : γ} {s t : σ}
    (reads : ∀ {b u}, x s = .ok b u → u = s) (ok : (x >>= f) s = .ok c t) : ∃ b, f b s = .ok c t := by
  obtain ⟨b,-,rest⟩ := pass (P := fun _ => True) (fun first => ⟨trivial,reads first⟩) ok
  exact ⟨b,rest⟩

@[simp] theorem pureOk {b c s t} : (pure b : EStateM Fault σ β) s = .ok c t ↔ b = c ∧ s = t := by
  simp [pure,EStateM.pure]

end Step

namespace Eval

variable {α β : Type}

@[simp] theorem liftOk {o b s t} : (lift o : Exec α β) s = .ok b t ↔ o = .ok b ∧ s = t := by
  cases o with
  | error f => simp [lift,throw,throwThe,MonadExceptOf.throw,EStateM.throw]
  | ok a => simp [lift,pure,EStateM.pure]

@[simp] theorem failOk {m b s t} : ¬ (fail m : Exec α β) s = .ok b t := nofun

@[simp] theorem abortOk {b s t} : ¬ (abort : Exec α β) s = .ok b t := nofun

end Eval

namespace Drafting

variable {β : Type}

@[simp] theorem liftOk {o b d e} : (lift o : Drafting β) d = .ok b e ↔ o = .ok b ∧ d = e := by
  cases o with
  | error f => simp [lift,throw,throwThe,MonadExceptOf.throw,EStateM.throw]
  | ok a => simp [lift,pure,EStateM.pure]

@[simp] theorem failOk {m b d e} : ¬ (fail m : Drafting β) d = .ok b e := nofun

@[simp] theorem abortOk {b d e} : ¬ (abort : Drafting β) d = .ok b e := nofun

end Drafting

end TileLower

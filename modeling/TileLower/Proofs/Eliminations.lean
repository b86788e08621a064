import TileLower.Proofs.Blockings
import TileLower.Proofs.Lowerings
import TileLower.Proofs.Writes

/-!
Dead code is code that no run can see: what stays does not read its results, and it wrote to none of its operands.
Main statement: `DeadCode.eliminateRefines`.
-/
namespace TileLower

open Structured List

inductive Omits (P : OpId → Prop) : List OpId → List OpId → Prop where
  | nil : Omits P [] []
  | keep {j : OpId} {ids left : List OpId} (rest : Omits P ids left) : Omits P (j :: ids) (j :: left)
  | skip {j : OpId} {ids left : List OpId} (out : P j) (rest : Omits P ids left) : Omits P (j :: ids) left

namespace Omits

variable {P Q : OpId → Prop} {ids left : List OpId}

theorem refl (ids : List OpId) : Omits P ids ids := by
  induction ids with
  | nil => exact .nil
  | cons j ids ih => exact .keep ih

theorem mono (omits : Omits P ids left) (imp : ∀ j, P j → Q j) : Omits Q ids left := by
  induction omits with
  | nil => exact .nil
  | keep _ ih => exact .keep ih
  | skip out _ ih => exact .skip (imp _ out) ih

theorem subset (omits : Omits P ids left) : left ⊆ ids := by
  induction omits with
  | nil => exact Subset.refl _
  | keep _ ih => exact cons_subset_cons _ ih
  | skip _ _ ih => exact fun j mem => .tail _ (ih mem)

theorem sublist (omits : Omits P ids left) : left.Sublist ids := by
  induction omits with
  | nil => exact Sublist.slnil
  | keep _ ih => exact ih.cons_cons _
  | skip _ _ ih => exact ih.cons _

theorem erase (omits : Omits P ids left) {id} (out : P id) : Omits P ids (left.erase id) := by
  induction omits with
  | nil => exact .nil
  | @keep j _ _ rest ih =>
    rw [erase_cons]
    split
    · rename_i same
      exact .skip (eq_of_beq same ▸ out) rest
    · exact .keep ih
  | skip gone _ ih => exact .skip gone ih

end Omits

namespace Graph

variable {g h : Graph}

theorem walkSubset (ops : ∀ b, (h.block b).ops ⊆ (g.block b).ops) (regions : ∀ j, (h.op j).region = (g.op j).region)
    (n : Nat) (b : BlockId) : h.walk n b ⊆ g.walk n b := by
  induction n generalizing b with
  | zero => exact Subset.refl _
  | succ n ih =>
    intro j mem
    obtain ⟨k,listed,mem⟩ := mem_flatMap.mp mem
    refine mem_flatMap.mpr ⟨k,ops b listed,?_⟩
    rw [regions k] at mem
    refine (mem_cons.mp mem).elim (fun same => same ▸ .head _) fun inner => .tail _ ?_
    cases region : (g.op k).region with
    | none => rwa [region] at inner
    | some r =>
      rw [region] at inner
      exact ih r inner

theorem regionWalked {j} (mem : j ∈ (g.block body).ops) {r} (region : (g.op j).region = some r) {i}
    (inside : i ∈ (g.block r).ops) : i ∈ g.walkAll := by
  refine mem_flatMap.mpr ⟨j,mem,.tail _ ?_⟩
  obtain ⟨n,size⟩ := Nat.exists_eq_succ_of_ne_zero (Nat.ne_zero_of_lt (listedInside mem))
  rw [region,size]
  exact mem_flatMap.mpr ⟨i,inside,.head _⟩

structure Unread (g h : Graph) (d : OpId) : Prop where
  results : (g.op d).results ≠ []
  unused : ∀ j ∈ h.walkAll, ∀ k, some (.result d k) ∉ (g.op j).operands

structure Thins (g h : Graph) : Prop where
  name : h.name = g.name
  blocks : h.blocks.size = g.blocks.size
  ops : ∀ j, ∃ c, h.op j = { g.op j with block := c }
  args : ∀ b, (h.block b).args = (g.block b).args
  omits : ∀ b, Omits (g.Unread h) (g.block b).ops (h.block b).ops

namespace Thins

theorem refl (g : Graph) : g.Thins g := ⟨rfl,rfl,fun _ => ⟨_,rfl⟩,fun _ => rfl,fun _ => .refl _⟩

variable (thins : g.Thins h)

include thins

theorem walked {j} (mem : j ∈ h.walkAll) : j ∈ g.walkAll := by
  rw [walkAll,walkFrom,thins.blocks] at mem
  refine walkSubset (fun b => (thins.omits b).subset) (fun k => ?_) _ _ mem
  obtain ⟨_,same⟩ := thins.ops k
  rw [same]

theorem typeOf (v : Value) : h.typeOf v = g.typeOf v := by
  refine typeOfCongr (fun j => ?_) thins.args v
  obtain ⟨_,same⟩ := thins.ops j
  rw [same]

theorem takeOut (ok : g.verify = .ok ()) {id} (dead : DeadCode.isDead h id = true) :
    g.Thins (DeadCode.takeOut h id) := by
  rw [DeadCode.isDead,Bool.and_eq_true,Bool.and_eq_true] at dead
  obtain ⟨⟨results,alive⟩,unused⟩ := dead
  obtain ⟨c,same⟩ := thins.ops id
  obtain ⟨b,block⟩ := Option.isSome_iff_exists.mp alive
  have taken : DeadCode.takeOut h id = h.erase b id := by rw [DeadCode.takeOut,block]
  rw [taken]
  have ops (j : OpId) : ∃ c, (h.erase b id).op j = { h.op j with block := c } := by
    by_cases here : j = id
    · subst here
      unfold Graph.erase
      split
      · rw [modifyOpAt,modifyBlockOp]
        split <;> exact ⟨_,rfl⟩
      · exact ⟨_,rfl⟩
    · exact ⟨_,eraseOther _ _ _ here⟩
  have fewer (j : OpId) (mem : j ∈ (h.erase b id).walkAll) : j ∈ h.walkAll := by
    rw [walkAll,walkFrom,eraseBlocks] at mem
    refine walkSubset (fun e => ?_) (fun k => ?_) _ _ mem
    · rw [eraseBlock]
      split
      · exact erase_subset
      · exact Subset.refl _
    · obtain ⟨_,same⟩ := ops k
      rw [same]
  have more (d : OpId) (unread : g.Unread h d) : g.Unread (h.erase b id) d :=
    ⟨unread.results,fun j mem => unread.unused j (fewer j mem)⟩
  have here : g.Unread (h.erase b id) id := by
    refine ⟨fun none => by simp [same,none] at results,fun j mem k used => ?_⟩
    obtain ⟨_,known,defined⟩ := operandsDefined ok (thins.walked (fewer j mem)) _ used
    cases known
    obtain ⟨_,sameUser⟩ := thins.ops j
    refine absurd ?_ (Bool.eq_false_iff.mp ((Bool.not_eq_true' _).mp unused))
    refine any_eq_true.mpr ⟨.result id k,mem_map.mpr ⟨k,mem_range.mpr ?_,rfl⟩,
      any_eq_true.mpr ⟨j,fewer j mem,contains_iff_mem.mpr ?_⟩⟩
    · rw [same]
      exact defined.2
    · rw [sameUser]
      exact used
  refine ⟨by rw [eraseName,thins.name],by rw [eraseBlocks,thins.blocks],fun j => ?_,fun e => ?_,fun e => ?_⟩
  · obtain ⟨_,first⟩ := thins.ops j
    obtain ⟨_,second⟩ := ops j
    exact ⟨_,second.trans (by rw [first])⟩
  · rw [← thins.args e,eraseBlock]
    split <;> rfl
  · have before := (thins.omits e).mono more
    rw [eraseBlock]
    split
    · exact before.erase here
    · exact before

end Thins

structure Discardable (g : Graph) (id : OpId) : Prop where
  few : (g.op id).operands.length < wordBound
  spares : ∀ v ∈ (g.op id).operands, ∀ w ∈ v, ¬ Eval.WritesTo g id w
  notReturn : (g.op id).kind ≠ Memory.returnKind
  notYield : (g.op id).kind ≠ yieldKind

instance (g : Graph) (id : OpId) : Decidable (g.Discardable id) :=
  decidable_of_iff ((g.op id).operands.length < wordBound ∧ (∀ v ∈ (g.op id).operands, ∀ w ∈ v, ¬ Eval.WritesTo g id w) ∧
    (g.op id).kind ≠ Memory.returnKind ∧ (g.op id).kind ≠ yieldKind)
    ⟨fun ⟨few,spares,notReturn,notYield⟩ => ⟨few,spares,notReturn,notYield⟩,
      fun ⟨few,spares,notReturn,notYield⟩ => ⟨few,spares,notReturn,notYield⟩⟩

end Graph

namespace Eval

variable {α : Type} [Scalar α] {g h : Graph} {s s' t : Machine α}

theorem evalOpAside {id} (discardable : g.Discardable id) (valid : ∀ v r, s.env v = some r → r < s.memory.size)
    (ok : evalOp g id s = .ok () t) : s.memory.size ≤ t.memory.size ∧
      (∀ r, r < s.memory.size → t.arrayAt r = s.arrayAt r) ∧ (∀ v, (∀ i, v ≠ .result id i) → t.env v = s.env v) ∧
      ∀ v r, t.env v = some r → r < t.memory.size := by
  have suits : Suits α (fun _ => False) (fun _ _ _ => True) g id := by
    refine ⟨fun j v at_ place => ?_,.inl discardable.few,?_,?_,?_⟩
    · exact discardable.spares _ (mem_of_getElem? at_) v rfl ⟨j,at_,place⟩
    all_goals intros; trivial
  have agree : Agree (View.self (fun _ => False) (fun _ _ _ => True) id) _ s s :=
    .self (fun v r _ found => ⟨rfl,valid v r found⟩) fun _ _ _ _ => trivial
  obtain ⟨q,_,t',-,after,passes,-⟩ := suits.kept.evalOp _ (.refl _) s s agree () t ok
  refine ⟨passes.size,fun r within => passes.contents r within fun r' own => ?_,fun v other => ?_,fun v r found => ?_⟩
  · obtain ⟨-,_,writable,-⟩ := own
    exact writable
  · exact passes.env v fun ⟨i,same⟩ => other i same
  · rcases passes.bound v r found with old | holds
    · exact (valid v r old).trans_le passes.size
    · obtain ⟨-,_,_,shape,-⟩ := after.held r v holds
      exact (after.shaped r _ _ shape).1

def View.thinned (g h : Graph) : View where
  rename v := v
  live v := ∀ d k, v = .result d k → ¬ g.Unread h d
  writable _ := True
  bindable _ := True
  fits _ _ _ := True
  kept _ _ := rfl
  only _ _ _ _ same := same

section Thinned

theorem operandLive {j} (mem : j ∈ h.walkAll) {v} (used : some v ∈ (g.op j).operands) :
    (View.thinned g h).live v := by
  rintro d k rfl unread
  exact unread.unused j mem k used

variable (thins : g.Thins h)

include thins

theorem evalScalarThinned {j} (mem : j ∈ h.walkAll) {env env' : Locals α}
    (same : ∀ v, (View.thinned g h).live v → env' v = env v) :
    (∀ v ∈ (g.op j).operands, env'.read v = env.read v) ∧ evalScalar h env' j = evalScalar g env j := by
  have read (v : Operand) (used : v ∈ (g.op j).operands) : env'.read v = env.read v := by
    cases v with
    | none => rfl
    | some v => exact same v (operandLive mem used)
  obtain ⟨c,op⟩ := thins.ops j
  have operand (i : Nat) : operandValue h env' j i = operandValue g env j i := by
    simp only [operandValue,Graph.operandAt,op]
    cases at_ : (g.op j).operands[i]? with
    | none => rfl
    | some v => exact congrArg Except.ok (read v (mem_of_getElem? at_))
  refine ⟨read,?_⟩
  simp only [evalScalar,operand,op,Arith.constantValue?]

theorem evalOpsThinned {ids left : List OpId} (omits : Omits (g.Unread h) ids left)
    (goes : ∀ d ∈ ids, g.Unread h d → (g.op d).kind ≠ yieldKind) (walked : ∀ j ∈ left, j ∈ h.walkAll)
    {env env' : Locals α} (same : ∀ v, (View.thinned g h).live v → env' v = env v) {ys : List α}
    (ok : evalOps g env ids = .ok ys) : evalOps h env' left = .ok ys := by
  induction omits generalizing env env' with
  | nil => exact ok
  | @keep j ids left rest ih =>
    obtain ⟨-,goes⟩ := forall_mem_cons.mp goes
    obtain ⟨here,walked⟩ := forall_mem_cons.mp walked
    obtain ⟨read,scalar⟩ := evalScalarThinned thins here same
    obtain ⟨c,op⟩ := thins.ops j
    rw [evalOps] at ok ⊢
    rw [scalar,Graph.resultAt,op]
    split at ok
    · rw [if_pos ‹_›,← ok,map_congr_left read]
    · rw [if_neg ‹_›]
      obtain ⟨x,value,ok⟩ := Outcome.bindOk.mp ok
      obtain ⟨v,result,ok⟩ := Outcome.bindOk.mp ok
      rw [value,Outcome.bindOfOk]
      refine Outcome.bindOk.mpr ⟨v,result,ih goes walked (fun w live => ?_) ok⟩
      simp only [Locals.set,same w live]
  | @skip d ids left out rest ih =>
    obtain ⟨notYield,goes⟩ := forall_mem_cons.mp goes
    rw [evalOps,if_neg (notYield out)] at ok
    obtain ⟨x,-,ok⟩ := Outcome.bindOk.mp ok
    obtain ⟨v,result,ok⟩ := Outcome.bindOk.mp ok
    obtain ⟨-,rfl⟩ := Graph.resultAtOk.mp result
    refine ih goes walked (fun w live => ?_) ok
    rw [same w live,Locals.set,if_neg fun same => live d 0 same out]

variable (discardable : ∀ j ∈ g.walkAll, (g.op j).results ≠ [] → g.Discardable j)

include discardable

theorem keptThinned {j : OpId} (mem : j ∈ (h.block Graph.body).ops) : Kept α (View.thinned g h) g h j := by
  obtain ⟨c,op⟩ := thins.ops j
  have listed := (thins.omits _).subset mem
  refine ⟨by rw [op],by rw [op],by rw [op],by simp [op,View.thinned],fun v used => ?_,fun v _ => thins.typeOf v,
    fun _ _ _ _ => trivial,.inr fun _ _ => trivial,by rw [op],fun b region args ys ok => ?_,fun _ => trivial,
    fun _ _ _ _ => trivial,fun _ _ _ _ _ _ _ _ _ => trivial,fun _ _ _ _ _ _ => trivial⟩
  · exact operandLive (Graph.bodyWalked mem) used
  · obtain ⟨env,bound,ok⟩ := Outcome.bindOk.mp ok
    rw [evalBody,thins.args,bound,Outcome.bindOfOk]
    refine evalOpsThinned thins (thins.omits b) (fun d inside unread => ?_) (fun i inside => ?_) (fun _ _ => rfl) ok
    · exact (discardable d (Graph.regionWalked listed region inside) unread.results).notYield
    · exact Graph.regionWalked mem (by rw [op,region]) inside

/- The operations of a function. An operation that is left out leaves the machine beside it where it is. -/
theorem evalAllThinned {ids left} (omits : Omits (g.Unread h) ids left) (walked : ∀ j ∈ ids, j ∈ g.walkAll)
    (listed : ∀ j ∈ left, j ∈ (h.block Graph.body).ops) {p : Pairing} (agree : Agree (View.thinned g h) p s s')
    (settled : Settled (View.thinned g h) p s) {rs} (ok : evalAll g ids s = .ok rs t) :
    ∃ q rs' t', evalAll h left s' = .ok rs' t' ∧ Forall₂ q.same rs rs' ∧
      Agree (View.thinned g h) q t t' ∧ ∀ r r', p.same r r' → q.same r r' := by
  induction omits generalizing p s s' with
  | nil =>
    cases ok
    exact ⟨p,[],s',rfl,.nil,agree,fun _ _ same => same⟩
  | @keep j ids left rest ih =>
    obtain ⟨-,walked⟩ := forall_mem_cons.mp walked
    obtain ⟨here,listed⟩ := forall_mem_cons.mp listed
    have kept := keptThinned (α := α) thins discardable here
    by_cases stops : (g.op j).kind = Memory.returnKind
    · rw [evalAll,if_pos stops] at ok
      obtain ⟨q,rs',t',ran,agree,passes,all⟩ :=
        kept.values (g.op j).operands (fun _ mem => mem) p (.refl p) s s' agree rs t ok
      refine ⟨q,rs',t',?_,all,agree,passes.le.same⟩
      rw [evalAll,if_pos (kept.kind.trans stops),kept.operands,ran]
    · obtain ⟨w,first,last⟩ := (evalAllCons stops).mp ok
      obtain ⟨q,_,w',first',agree,passes,-⟩ := kept.evalOp p (.refl p) s s' agree () w first
      obtain ⟨settled,flows⟩ := settled.step passes agree
      obtain ⟨q',rs',t',ran,all,agree,same⟩ := ih walked listed agree.settle settled last
      exact ⟨q',rs',t',(evalAllCons (kept.kind ▸ stops)).mpr ⟨w',first',ran⟩,all,agree,
        fun r r' paired => same r r' (flows.same r r' paired)⟩
  | @skip d ids left out rest ih =>
    obtain ⟨here,walked⟩ := forall_mem_cons.mp walked
    have aside := discardable d here out.results
    obtain ⟨w,first,last⟩ := (evalAllCons aside.notReturn).mp ok
    obtain ⟨size,contents,env,valid⟩ := evalOpAside aside settled.valid first
    have still : Agree (View.thinned g h) p w s' := by
      refine ⟨fun r r' same => ?_,agree.owned,fun r t n shape => ?_,agree.held,fun v r live found => ?_⟩
      · obtain ⟨within,within',equal⟩ := agree.valid r r' same
        exact ⟨within.trans_le size,within',(contents r within).trans equal⟩
      · obtain ⟨within,shape⟩ := agree.shaped r t n shape
        rw [contents r within]
        exact ⟨within.trans_le size,shape⟩
      · rw [env v fun i same => live d i same out] at found
        exact agree.env v r live found
    have settled : Settled (View.thinned g h) (p.settle (View.thinned g h) w) w :=
      ⟨fun _ _ => False.elim,valid,fun _ _ own => own.2,fun _ _ _ free => absurd trivial free⟩
    obtain ⟨q,rs',t',ran,all,agree,same⟩ := ih walked listed still.settle settled last
    exact ⟨q,rs',t',ran,all,agree,same⟩

theorem refinesThinned {memory : Array (NdArray α)} {args} (valid : ∀ r ∈ args, r < memory.size) :
    Refines g h memory args := by
  refine refinesOfPaired valid fun s rs t started ran => ?_
  obtain ⟨q,rs',t',ran',all,agree,same⟩ := evalAllThinned thins discardable (thins.omits _)
    (fun j mem => Graph.bodyWalked mem) (fun j mem => mem)
    (started.agree (fun _ _ => rfl) fun _ _ _ _ => trivial) (started.settled fun _ free => absurd trivial free) ran
  exact ⟨_,q,rs',t',started.carry thins.name (thins.args _),ran',all,agree,fun r within => same r r ⟨rfl,within⟩⟩

end Thinned

end Eval

namespace DeadCode

variable {α : Type} [Scalar α] {g : Graph} {memory : Array (NdArray α)} {args : List Eval.Ref}

/-- Without its dead code a function gives the same results and leaves the same in memory, if operations with results
leave their operands alone and end no body. -/
theorem eliminateRefines (ok : g.verify = .ok ())
    (discardable : ∀ j ∈ g.walkAll, (g.op j).results ≠ [] → g.Discardable j) (valid : ∀ r ∈ args, r < memory.size) :
    Eval.Refines g (eliminate g).1 memory args :=
  Eval.refinesThinned (eliminateKeeps (fun _ _ dead thins => thins.takeOut ok dead) (.refl g)) discardable valid

def littered : Graph :=
  Blocking.withBody (replicate 3 (.tensor .f32 [2, 2]))
    [Propagation.plain copyKind [.argument 0 0, .argument 0 2] [.tensor .f32 [2, 2]],
      Propagation.plain copyKind [.result 0 0, .argument 0 2] [.tensor .f32 [2, 2]],
      ⟨matmulKind,[some (.argument 0 0), some (.argument 0 1), some (.argument 0 2)],
        [.ofType (.tensor .f32 [2, 2])],Attributes.ofList [(numInputsAttr, .int 2)],none,none⟩,
      Propagation.plain Memory.returnKind [.result 2 0] []] [0, 1, 2, 3] 2 (replicate 3 (.scalar .f32))
    (⟨Arith.mulFloatKind,[some (.argument 1 0), some (.argument 1 2)],[.ofType (.scalar .f32)],OrderedMap.empty,none,none⟩ ::
      Blocking.contracting 5)

theorem eliminateRefinesLittered : littered.verify = .ok () ∧ (eliminate littered).2 = 3 ∧
    Eval.Refines littered (eliminate littered).1 #[(⟨.tensor .f32 [2, 2], #[1, 2, 3, 4]⟩ : NdArray Int),
      ⟨.tensor .f32 [2, 2], #[5, 6, 7, 8]⟩, ⟨.tensor .f32 [2, 2], #[0, 0, 0, 0]⟩] [0, 1, 2] := by
  have ok : littered.verify = .ok () := by decide +kernel
  exact ⟨ok,by decide +kernel,eliminateRefines ok (by decide +kernel) (by decide)⟩

open Eval (beforeThen returned) in
/-- Dead code that is seen: a return and a yield with results, a copy onto a tensor, and the filling of a scalar. -/
theorem eliminateChanges :
    beforeThen returned (fun g => some (eliminate g).1) (Propagation.straight [.tensor .f32 [2]]
      [Propagation.plain Memory.returnKind [.argument 0 0] [.tensor .f32 [2]]] [0]) [#[1, 2]] = some ([#[1, 2]], some []) ∧
    beforeThen returned (fun g => some (eliminate g).1) (Blocking.withBody (List.replicate 3 (.tensor .f32 [1, 1]))
      [⟨Structured.matmulKind, [some (.argument 0 0), some (.argument 0 1), some (.argument 0 2)],
          [.ofType (.tensor .f32 [1, 1])], Attributes.ofList [(Structured.numInputsAttr, .int 2)], none, none⟩,
        Propagation.plain Memory.returnKind [.result 0 0] []] [0, 1] 0 (List.replicate 3 (.scalar .f32))
      [Propagation.plain Structured.yieldKind [.argument 1 0] [.scalar .f32]]) [#[1], #[2], #[3]] = some ([#[1]], none) ∧
    beforeThen returned (fun g => some (eliminate g).1) (Propagation.straight [.tensor .f32 [2], .buffer .f32 [2]]
      [Propagation.plain Memory.copyKind [.argument 0 1, .argument 0 0] [.tensor .f32 [2]],
        Propagation.plain Memory.returnKind [.argument 0 0] []] [0, 1]) [#[1, 2], #[3, 4]] =
        some ([#[3, 4]], some [#[1, 2]]) ∧
    beforeThen returned (fun g => some (eliminate g).1)
      (Propagation.straight [.scalar .f32, .scalar .f32, .tensor .f32 [2]]
      [Propagation.plain Structured.fillKind [.argument 0 0, .argument 0 1] [.scalar .f32],
        Propagation.plain Structured.fillKind [.argument 0 1, .argument 0 2] [.tensor .f32 [2]],
        Propagation.plain Memory.returnKind [.result 1 0] []] [0, 1, 2]) [#[5], #[7], #[1, 2]] =
        some ([#[5, 5]], some [#[7, 7]]) := by
  refine ⟨?_,?_,?_,?_⟩ <;> decide +kernel

end DeadCode

end TileLower

import TileLower.Proofs.Frames
import TileLower.Proofs.Structured

/-!
New operations in the place of one. They bind new values to new arrays and leave the rest of the machine alone.
-/
namespace TileLower.Eval

open List Step TileLower.Graph Machine

open Box (Inside)

variable {α : Type}

structure Extends (n : Nat) (s t : Machine α) : Prop where
  size : s.memory.size ≤ t.memory.size
  old : ∀ r, r < s.memory.size → t.arrayAt r = s.arrayAt r
  env : ∀ v, v.Below n → t.env v = s.env v

namespace Extends

variable {m n : Nat} {s t u : Machine α}

theorem refl (n : Nat) (s : Machine α) : Extends n s s := ⟨le_rfl,fun _ _ => rfl,fun _ _ => rfl⟩

theorem trans (first : Extends n s t) (second : Extends m t u) (le : n ≤ m) : Extends n s u where
  size := first.size.trans second.size
  old r within := (second.old r (within.trans_le first.size)).trans (first.old r within)
  env v below := (second.env v (below.mono le)).trans (first.env v below)

theorem bindFresh {id} (le : n ≤ id) (s : Machine α) (i : Nat) (a : NdArray α) :
    Extends n s (s.bindFresh (.result id i) a) where
  size := by simp
  old r within := s.arrayAtOld within
  env v below := by
    rw [s.bindFreshEnv,if_neg]
    rintro rfl
    exact Nat.not_lt.mpr le below

end Extends

structure Gives (s t : Machine α) (v : Value) (q : Ref) (a : NdArray α) : Prop where
  bound : t.env v = some q
  new : s.memory.size ≤ q
  valid : q < t.memory.size
  array : t.arrayAt q = a

theorem Gives.earlier {n : Nat} {s t u : Machine α} {v : Value} {q : Ref} {a : NdArray α} (extends_ : Extends n s t)
    (gives : Gives t u v q a) : Gives s u v q a :=
  ⟨gives.bound,extends_.size.trans gives.new,gives.valid,gives.array⟩

theorem givesFresh (s : Machine α) (v : Value) (a : NdArray α) : Gives s (s.bindFresh v a) v s.memory.size a where
  bound := by simp
  new := le_rfl
  valid := by simp
  array := s.arrayAtNew

section Replace

variable {id : OpId} {n : Nat} {W : Value → Prop} {F : Value → ValueType → Nat → Prop} {p : Pairing} {s s' t' : Machine α}
  {vals : List Value} {as : List (NdArray α)} {u : Nat → Ref}

theorem Machine.bindAllEnv {v r} (found : (s.bindAll id 0 as).env v = some r) :
    (∃ i < as.length, v = .result id i ∧ r = s.memory.size + i) ∨
      (∀ i < as.length, v ≠ .result id i) ∧ s.env v = some r := by
  by_cases here : ∃ i < as.length, v = .result id i
  · obtain ⟨i,within,rfl⟩ := here
    have bound := s.bindAllResult id 0 within
    rw [Nat.zero_add,found] at bound
    exact .inl ⟨i,within,rfl,Option.some.inj bound⟩
  · have other (i : Nat) (within : i < as.length) : v ≠ .result id i := fun same => here ⟨i,within,same⟩
    rw [bindAllOther fun i _ within => other i (by simpa using within)] at found
    exact .inr ⟨other,found⟩

theorem Agree.replace (agree : Agree (View.before id vals n W F) p s s')
    (settled : Settled (View.before id vals n W F) p s) (unbound : ∀ i, s.env (.result id i) = none)
    (extends_ : Extends n s' t') (gives : ∀ i a, as[i]? = some a → ∃ v, vals[i]? = some v ∧ Gives s' t' v (u i) a)
    (distinct : ∀ i j, i < as.length → j < as.length → W (.result id j) → u i = u j → i = j)
    (fits : ∀ i a, as[i]? = some a → F (.result id i) a.type a.data.size) :
    ∃ q, Agree (View.after id vals n W F) q (s.bindAll id 0 as) t' ∧
      Settled (View.after id vals n W F) q (s.bindAll id 0 as) ∧ ∀ r r', p.same r r' → q.same r r' := by
  have at_ {i : Nat} (within : i < as.length) : ∃ a, as[i]? = some a ∧ (s.bindAll id 0 as).arrayAt (s.memory.size + i) = a := by
    refine ⟨as[i],getElem?_eq_getElem within,?_⟩
    rw [s.bindAllNew,getD_eq_getElem _ _ within]
  have old {r : Ref} (within : r < s.memory.size) : (s.bindAll id 0 as).arrayAt r = s.arrayAt r := bindAllOld within ..
  have size : (s.bindAll id 0 as).memory.size = s.memory.size + as.length := s.bindAllSize ..
  have grown {r : Ref} (within : r < s.memory.size) : r < (s.bindAll id 0 as).memory.size :=
    size ▸ Nat.lt_add_right _ within
  have new {i : Nat} (within : i < as.length) : s.memory.size + i < (s.bindAll id 0 as).memory.size :=
    size ▸ Nat.add_lt_add_left within _
  have apart {r : Ref} (within : r < s.memory.size) (i : Nat) : r ≠ s.memory.size + i :=
    (Nat.lt_add_right i within).ne
  have fresh {i : Nat} (within : i < as.length) : s'.memory.size ≤ u i := by
    obtain ⟨a,found,-⟩ := at_ within
    obtain ⟨_,-,gives⟩ := gives i a found
    exact gives.new
  have apart' {r : Ref} (within : r < s'.memory.size) {i : Nat} (inside : i < as.length) : r ≠ u i :=
    (within.trans_le (fresh inside)).ne
  refine ⟨⟨fun r r' => p.same r r' ∨ ∃ i < as.length,r = s.memory.size + i ∧ r' = u i,
      fun r r' => p.own r r' ∨ ∃ i < as.length,W (.result id i) ∧ r = s.memory.size + i ∧ r' = u i,p.holds,
      fun r t m => p.shape r t m ∨ ∃ i a,as[i]? = some a ∧ r = s.memory.size + i ∧ t = a.type ∧ m = a.data.size⟩,
    ⟨?_,?_,?_,fun q v holds => absurd holds (settled.holds q v),?_⟩,⟨settled.holds,?_,?_,?_⟩,fun _ _ => .inl⟩
  · rintro r r' (same | ⟨i,within,rfl,rfl⟩)
    · obtain ⟨hr,hr',equal⟩ := agree.valid r r' same
      exact ⟨grown hr,hr'.trans_le extends_.size,by rw [old hr,extends_.old r' hr',equal]⟩
    · obtain ⟨a,found,here⟩ := at_ within
      obtain ⟨_,-,gives⟩ := gives i a found
      exact ⟨new within,gives.valid,by rw [here,gives.array]⟩
  · rintro r r' (own | ⟨i,within,writable,rfl,rfl⟩)
    · obtain ⟨same,only⟩ := agree.owned r r' own
      obtain ⟨hr,hr',-⟩ := agree.valid r r' same
      refine ⟨.inl same,?_⟩
      rintro o o' (same | ⟨i,within,rfl,rfl⟩)
      · exact only o o' same
      · exact ⟨fun same => absurd same.symm (apart hr i),fun same => absurd same.symm (apart' hr' within)⟩
    · refine ⟨.inr ⟨i,within,rfl,rfl⟩,?_⟩
      rintro o o' (same | ⟨j,within',rfl,rfl⟩)
      · obtain ⟨ho,ho',-⟩ := agree.valid o o' same
        exact ⟨fun same => absurd same (apart ho i),fun same => absurd same (apart' ho' within)⟩
      · exact ⟨fun same => by rw [Nat.add_left_cancel same],fun same => by rw [distinct j i within' within writable same]⟩
  · rintro r t m (shape | ⟨i,a,found,rfl,rfl,rfl⟩)
    · obtain ⟨hr,same⟩ := agree.shaped r t m shape
      exact ⟨grown hr,by rw [old hr]; exact same⟩
    · have within := (List.getElem?_eq_some_iff.mp found).1
      obtain ⟨b,found',here⟩ := at_ within
      cases found.symm.trans found'
      exact ⟨new within,by rw [here]; exact ⟨rfl,rfl⟩⟩
  · intro v r live bound
    rcases bindAllEnv bound with ⟨i,within,rfl,rfl⟩ | ⟨-,bound⟩
    · obtain ⟨a,found,-⟩ := at_ within
      obtain ⟨w,val,gives⟩ := gives i a found
      have renamed : renameFrom id 0 vals (.result id i) = w := by
        rw [renameFrom,if_pos ⟨rfl,Nat.zero_le i⟩,getD_eq_getElem?_getD,Nat.sub_zero,val,Option.getD_some]
      exact ⟨⟨_,_,.inr ⟨i,a,found,rfl,rfl,rfl⟩,fits i a found⟩,u i,(congrArg t'.env renamed).trans gives.bound,
        .inr ⟨i,within,rfl,rfl⟩,fun writable => .inr ⟨i,within,writable,rfl,rfl⟩⟩
    · have other (i : Nat) : v ≠ .result id i := by
        rintro rfl
        rw [unbound i] at bound
        cases bound
      obtain ⟨⟨t,m,shape,fits⟩,r',bound',same,own⟩ := agree.env v r ⟨live,other⟩ bound
      change s'.env (renameFrom id 0 vals v) = some r' at bound'
      refine ⟨⟨t,m,.inl shape,fits⟩,r',?_,.inl same,fun writable => .inl (own writable)⟩
      change t'.env (renameFrom id 0 vals v) = some r'
      rw [renameFromOther other] at bound' ⊢
      rw [extends_.env v live,bound']
  · intro v r bound
    rcases bindAllEnv bound with ⟨i,within,rfl,rfl⟩ | ⟨-,bound⟩
    · exact new within
    · exact grown (settled.valid v r bound)
  · rintro r r' (own | ⟨i,within,writable,rfl,rfl⟩)
    · obtain ⟨v,writable,bound⟩ := settled.own r r' own
      refine ⟨v,writable,?_⟩
      rw [bindAllOther fun i _ _ same => ?_,bound]
      rw [same,unbound i] at bound
      cases bound
    · exact ⟨.result id i,writable,by simpa using s.bindAllResult id 0 within⟩
  · intro v w r free bound bound'
    rcases bindAllEnv bound with ⟨i,within,rfl,rfl⟩ | ⟨-,bound⟩ <;>
      rcases bindAllEnv bound' with ⟨j,within',rfl,same⟩ | ⟨-,bound'⟩
    · rw [Nat.add_left_cancel same]
    · exact absurd rfl (apart (settled.valid w _ bound') i)
    · exact absurd same (apart (settled.valid v _ bound) j)
    · exact settled.apart v w r free bound bound'

theorem Agree.replaceOne {v q} {a : NdArray α} (agree : Agree (View.before id [v] n W F) p s s')
    (settled : Settled (View.before id [v] n W F) p s) (unbound : ∀ i, s.env (.result id i) = none)
    (extends_ : Extends n s' t') (gives : Gives s' t' v q a) (fit : F (.result id 0) a.type a.data.size) :
    ∃ q, Agree (View.after id [v] n W F) q (s.bindFresh (.result id 0) a) t' ∧
      Settled (View.after id [v] n W F) q (s.bindFresh (.result id 0) a) ∧ ∀ r r', p.same r r' → q.same r r' := by
  have only {i : Nat} {a' : NdArray α} (at_ : [a][i]? = some a') : i = 0 ∧ a' = a := by
    cases i with
    | zero => exact ⟨rfl,(Option.some.inj at_).symm⟩
    | succ => cases at_
  refine agree.replace (u := fun _ => q) settled unbound extends_ (fun i a' (at_ : [a][i]? = some a') => ?_)
    (fun i j hi hj _ _ => (Nat.lt_one_iff.mp hi).trans (Nat.lt_one_iff.mp hj).symm) fun i a' at_ => ?_
  · obtain ⟨rfl,rfl⟩ := only at_
    exact ⟨_,rfl,gives⟩
  · obtain ⟨rfl,rfl⟩ := only at_
    exact fit

end Replace

variable [Scalar α]

def Leads (g : Graph) (ids : List OpId) (n : Nat) (s : Machine α) (v : Value) (a : NdArray α) : Prop :=
  ∃ t q, evalEach g ids s = .ok () t ∧ Extends n s t ∧ Gives s t v q a

theorem Leads.one {g id n s} {a : NdArray α} (ran : evalOp g id s = .ok () (s.bindFresh (.result id 0) a))
    (le : n ≤ id) : Leads g [id] n s (.result id 0) a :=
  ⟨_,_,evalEachOne ran,.bindFresh le s 0 a,givesFresh s _ a⟩

theorem Leads.after {g first ids m n v} {s t : Machine α} {a} (ran : evalEach g first s = .ok () t)
    (extends_ : Extends n s t) (le : n ≤ m) (later : Leads g ids m t v a) : Leads g (first ++ ids) n s v a := by
  obtain ⟨u,q,rest,extends',gives⟩ := later
  exact ⟨u,q,evalEachAppend.mpr ⟨t,ran,rest⟩,extends_.trans extends' le,gives.earlier extends_⟩

omit [Scalar α] in
theorem Agree.kept {id vals n W F p} {s s' : Machine α} {v : Value} {r}
    (agree : Agree (View.before id vals n W F) p s s') (below : v.Below n) (other : ∀ i, v ≠ .result id i)
    (bound : s.env v = some r) :
    ∃ r', s'.env v = some r' ∧ r < s.memory.size ∧ r' < s'.memory.size ∧ s'.arrayAt r' = s.arrayAt r := by
  obtain ⟨-,r',bound',same,-⟩ := agree.env v r ⟨below,other⟩ bound
  obtain ⟨valid,valid',contents⟩ := agree.valid r r' same
  change s'.env (renameFrom id 0 vals v) = some r' at bound'
  rw [renameFromOther other] at bound'
  exact ⟨r',bound',valid,valid',contents.symm⟩

namespace Swap

variable {g g' : Graph} {id : OpId} {b : BlockId} {created : List OpId} {vals : List Value}
  (swap : Swap α g g' id b created vals)

section Place

variable {pre post : List OpId} (split : (g.block body).ops = pre ++ id :: post)

include swap split

theorem apart : id ∉ pre := fun mem => by
  have once := Scope.body.once swap.formed
  rw [split] at once
  exact (nodup_append.mp once).2.2 _ mem _ (.head _) rfl

theorem operandKnown {v : Value} (used : some v ∈ (g.op id).operands) :
    v.Below g.ops.size ∧ (∀ i, v ≠ .result id i) ∧ g'.typeOf v = g.typeOf v := by
  obtain ⟨below,early⟩ := swap.operands split used
  have other (i : Nat) : v ≠ .result id i := fun same => swap.apart split (early id i same)
  refine ⟨below,other,?_⟩
  rw [← swap.operandType split used,renameFromOther other]

end Place

variable {W : Value → Prop} {F : Value → ValueType → Nat → Prop} {memory : Array (NdArray α)} {args : List Ref}
  (suits : ∀ j ∈ (g.block body).ops, j ≠ id → Suits α W F g j)
  (tensors : ∀ k, ¬ W (.argument body k) → (g.typeOf (.argument body k)).isTensor = true)
  (fits : ∀ s, Started g memory args s → ∀ v r, s.env v = some r → F v (s.arrayAt r).type (s.arrayAt r).data.size)

include swap suits tensors fits

theorem unbound {pre post} (split : (g.block body).ops = pre ++ id :: post) {first s : Machine α}
    (started : Started g memory args first) (ran : evalEach g pre first = .ok () s) (i : Nat) :
    Sane W F s ∧ s.env (.result id i) = none := by
  have apart := swap.apart split
  have before (j : OpId) (mem : j ∈ pre) : Suits α W F g j :=
    suits j (split ▸ mem_append_left _ mem) fun same => apart (same ▸ mem)
  obtain ⟨sane,env,-⟩ := evalEachFrame before (started.sane tensors (fits first started)) ran
  refine ⟨sane,?_⟩
  rw [env _ fun j mem k same => apart (by cases same; exact mem)]
  exact started.resultsUnbound id i

theorem refinesOne {v} (single : vals = [v]) (valid : ∀ r ∈ args, r < memory.size)
    (step : ∀ pre post, (g.block body).ops = pre ++ id :: post → ∀ p (s s' t : Machine α),
      Agree (View.before id vals g.ops.size W F) p s s' → evalOp g id s = .ok () t →
      ∃ a, Leads g' created g.ops.size s' v a ∧ t = s.bindFresh (.result id 0) a ∧ F (.result id 0) a.type a.data.size) :
    Refines g g' memory args := by
  refine swap.refines valid suits tensors fits fun pre post split first s started ran p s' t agree settled ok => ?_
  obtain ⟨a,⟨t',q,ran',extends_,gives⟩,rfl,fit⟩ := step pre post split p s s' t agree ok
  have unbound (i : Nat) : s.env (.result id i) = none := (swap.unbound suits tensors fits split started ran i).2
  subst single
  obtain ⟨q,agree,settled,more⟩ := agree.replaceOne settled unbound extends_ gives fit
  exact ⟨q,t',ran',agree,settled,more⟩

end Swap

omit [Scalar α] in
theorem outputReads {g id v k} {s t : Machine α} {q} (ok : output g id v k s = .ok q t) :
    (∃ w r, v = some w ∧ s.env w = some r) ∧ ∀ x, (∀ i, x ≠ .result id i) → t.env x = s.env x := by
  obtain ⟨r,⟨w,rfl,bound⟩,ok⟩ := read valueOk ok
  refine ⟨⟨w,r,rfl,bound⟩,fun x other => ?_⟩
  dsimp only at ok
  split at ok
  · rw [bindOfOk (arrayRun r s),bindOfOk (allocateRun _ s)] at ok
    split at ok
    · split at ok
      · obtain ⟨_,_,failed,-⟩ := bindOk.mp ok
        cases failed
      · cases ok
        exact if_neg (other _)
    · cases ok
      rfl
  · cases ok
    rfl

omit [Scalar α] in
theorem operandArraysReads {g id n i vs} {s t : Machine α} {rs} (other : ∀ w, some w ∈ vs → ∀ k, w ≠ .result id k)
    (ok : operandArrays g id n i vs s = .ok rs t) :
    ∀ v ∈ vs, ∃ w r, v = some w ∧ s.env w = some r := by
  induction vs generalizing i s rs with
  | nil => exact fun _ none => nomatch none
  | cons v vs ih =>
    have parts : ∃ u qs, ((∃ w r, v = some w ∧ s.env w = some r) ∧ ∀ x, (∀ i, x ≠ .result id i) → u.env x = s.env x) ∧
        operandArrays g id n (i + 1) vs u = .ok qs t := by
      rw [operandArrays] at ok
      split at ok <;> obtain ⟨r,u,ran,ok⟩ := bindOk.mp ok <;> obtain ⟨qs,_,rest,ok⟩ := bindOk.mp ok <;>
        cases ok
      · obtain ⟨⟨w,same,bound⟩,rfl⟩ := valueOk.mp ran
        exact ⟨s,qs,⟨⟨w,r,same,bound⟩,fun _ _ => rfl⟩,rest⟩
      · exact ⟨u,qs,outputReads ran,rest⟩
    obtain ⟨u,qs,here,rest⟩ := parts
    refine forall_mem_cons.mpr ⟨here.1,fun v mem => ?_⟩
    obtain ⟨w,r,rfl,bound⟩ := ih (fun w mem => other w (.tail _ mem)) rest v mem
    exact ⟨w,r,rfl,(here.2 w (other w (.tail _ mem))).symm.trans bound⟩

theorem structuredSteps {g : Graph} {id} {s t : Machine α} (ok : structured g id s = .ok () t) :
    ∃ maps b es rs u, indexingMaps (g.op id) = .ok maps ∧ (g.op id).region = some b ∧
      loopExtents g maps (g.op id).operands = .ok es ∧
      operandArrays g id (Structured.numInputs (g.op id)) 0 (g.op id).operands s = .ok rs u ∧
      Box.each es (point g b (Structured.numInputs (g.op id)) (maps.zip rs)) u = .ok () t := by
  obtain ⟨maps,indexing,ok⟩ := read liftOk ok
  cases region : (g.op id).region with
  | none =>
    rw [region] at ok
    exact absurd ok failOk
  | some b =>
    rw [region] at ok
    obtain ⟨es,extents,ok⟩ := read liftOk ok
    obtain ⟨rs,u,ran,points⟩ := bindOk.mp ok
    exact ⟨maps,b,es,rs,u,indexing,rfl,extents,ran,points⟩

theorem structuredOpens {g : Graph} {id} {s t : Machine α}
    (other : ∀ w, some w ∈ (g.op id).operands → ∀ k, w ≠ .result id k) (ok : structured g id s = .ok () t) :
    ∃ maps b es, indexingMaps (g.op id) = .ok maps ∧ (g.op id).region = some b ∧
      loopExtents g maps (g.op id).operands = .ok es ∧ ∀ v ∈ (g.op id).operands, ∃ w r, v = some w ∧ s.env w = some r := by
  obtain ⟨maps,b,es,_,_,indexing,region,extents,ran,-⟩ := structuredSteps ok
  exact ⟨maps,b,es,indexing,region,extents,operandArraysReads other ran⟩

end TileLower.Eval

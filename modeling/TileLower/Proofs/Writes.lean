import TileLower.Proofs.Frames

/-!
What operations write: the arrays of their outputs that are not tensors, and the destination of a copy.
-/
namespace TileLower.Eval

open List Structured Step

variable {α : Type} {g : Graph} {id : OpId} {s t : Machine α} {v : Value}

def WritesTo (g : Graph) (id : OpId) (v : Value) : Prop := ∃ j, (g.op id).operands[j]? = some (some v) ∧
  ((∃ i, Copied (g.op id) j i) ∧ (g.typeOf v).isTensor = false ∨ (g.op id).kind = Memory.copyKind ∧ j = 1)

theorem copiedAt {op : Operation} {j} : (∃ i, Copied op j i) ↔
    isStructured op = true ∧ ¬ Int64.ofNat j < numInputs op ∨
      (op.kind = Relayout.packKind ∨ op.kind = Relayout.unpackKind) ∧ j = 1 ∨
      Primitive.isPrimitive op = true ∧ j + 1 = op.operands.length := by
  constructor
  · rintro ⟨i,⟨isStructured,output,-⟩ | ⟨kind,second,-⟩ | ⟨primitive,last,-⟩⟩
    · exact .inl ⟨isStructured,output⟩
    · exact .inr (.inl ⟨kind,second⟩)
    · exact .inr (.inr ⟨primitive,last⟩)
  · rintro (⟨isStructured,output⟩ | ⟨kind,second⟩ | ⟨primitive,last⟩)
    · exact ⟨_,.inl ⟨isStructured,output,rfl⟩⟩
    · exact ⟨0,.inr (.inl ⟨kind,second,rfl⟩)⟩
    · exact ⟨0,.inr (.inr ⟨primitive,last,rfl⟩)⟩

instance (op : Operation) (j : Nat) : Decidable (∃ i, Copied op j i) := decidable_of_iff' _ copiedAt

instance (g : Graph) (id : OpId) (v : Value) : Decidable (WritesTo g id v) :=
  decidable_of_iff (∃ j ∈ range (g.op id).operands.length, (g.op id).operands[j]? = some (some v) ∧
    ((∃ i, Copied (g.op id) j i) ∧ (g.typeOf v).isTensor = false ∨ (g.op id).kind = Memory.copyKind ∧ j = 1))
    ⟨fun ⟨j,_,writes⟩ => ⟨j,writes⟩,
      fun ⟨j,at_,place⟩ => ⟨j,List.mem_range.mpr (List.getElem?_eq_some_iff.mp at_).1,at_,place⟩⟩

structure Distinct (s : Machine α) : Prop where
  valid : ∀ v r, s.env v = some r → r < s.memory.size
  apart : ∀ v w r, s.env v = some r → s.env w = some r → v = w

theorem Distinct.sane (distinct : Distinct s) (W : Value → Prop) : Sane W (fun _ _ _ => True) s := by
  refine ⟨_,.self (fun v r _ found => ⟨rfl,distinct.valid v r found⟩) fun _ _ _ _ => trivial,?_⟩
  exact ⟨fun _ _ => False.elim,distinct.valid,fun _ _ own => own.2,
    fun v w r _ found found' => distinct.apart v w r found found'⟩

theorem Started.distinct {memory} {args : List Ref} (started : Started g memory args s) (once : args.Nodup) :
    Distinct s := by
  refine ⟨fun v r found => ?_,fun v w r found found' => ?_⟩
  · obtain ⟨_,_,-,-,-,-,within,-⟩ := started.argument found
    exact within
  · rcases Nat.lt_or_ge r memory.size with old | new
    · -- An array that was given belongs to the argument for which it was given.
      have place (v : Value) (found : s.env v = some r) : ∃ k, v = .argument Graph.body k ∧ args[k]? = some r := by
        rcases started.binds.bound v r found with none | ⟨k,slot,q,name,-,atRef,-,-,-,place⟩
        · cases none
        · rw [Nat.zero_add] at name
          split at place
          · exact absurd old (Nat.not_lt.mpr place)
          · exact ⟨k,name,place ▸ atRef⟩
      obtain ⟨k,rfl,atK⟩ := place v found
      obtain ⟨m,rfl,atM⟩ := place w found'
      have inside := (List.getElem?_eq_some_iff.mp atK).1
      rw [(getElem?_inj inside once).mp (atK.trans atM.symm)]
    · exact started.binds.apart v w r new found found'

theorem valueSomeOk {r} (ok : value g (some v) s = .ok r t) : s.env v = some r ∧ t = s := by
  obtain ⟨⟨_,same,found⟩,rest⟩ := valueOk.mp ok
  cases same
  exact ⟨found,rest.symm⟩

theorem eachKeeps {P : Machine α → Prop} {f : List Int64 → Exec α Unit}
    (step : ∀ idx s t, P s → f idx s = .ok () t → P t) {dims : List Int64} (holds : P s)
    (ok : Box.each dims f s = .ok () t) : P t := by
  rw [Box.eachIndices] at ok
  generalize Box.indices dims = is at ok
  induction is generalizing s with
  | nil =>
    cases ok
    exact holds
  | cons idx later ih =>
    obtain ⟨_,u,first,last⟩ := bindOk.mp ok
    exact ih (step idx s u holds first) last

structure Written (g : Graph) (id : OpId) (s : Machine α) (v : Value) (r q : Ref) (t : Machine α) : Prop where
  within : q < t.memory.size
  contents : t.arrayAt q = s.arrayAt r
  others : ∀ p < s.memory.size, t.arrayAt p = s.arrayAt p
  env : ∀ w p, t.env w = some p → s.env w = some p ∨ (∃ j, w = .result id j) ∧ p = q
  place : (g.typeOf v).isTensor = false → q = r ∧ t = s

theorem outputOk {w i q} (valid : ∀ v r, s.env v = some r → r < s.memory.size) (ok : output g id w i s = .ok q t) :
    ∃ v r, w = some v ∧ s.env v = some r ∧ Written g id s v r q t := by
  obtain ⟨r,_,ran,ok⟩ := bindOk.mp ok
  obtain ⟨⟨v,rfl,found⟩,rfl⟩ := valueOk.mp ran
  refine ⟨v,r,rfl,found,?_⟩
  dsimp only at ok
  split at ok
  · rename_i tensor
    have ok : (do
        if i < Int64.ofNat (g.op id).results.length then
          if i < 0 then abort
          bind (.result id i.toNatClampNeg) s.memory.size
        return s.memory.size : Exec α Ref) { s with memory := s.memory.push (s.arrayAt r) } = .ok q t := ok
    have pushed (p : Ref) : ({ s with memory := s.memory.push (s.arrayAt r) } : Machine α).arrayAt p =
        if p = s.memory.size then s.arrayAt r else s.arrayAt p := s.arrayAtFresh default _ p
    have old (p : Ref) (lt : p < s.memory.size) : ({ s with memory := s.memory.push (s.arrayAt r) } : Machine α).arrayAt p =
        s.arrayAt p := (pushed p).trans (if_neg (lt.ne))
    have new := (pushed s.memory.size).trans (if_pos rfl)
    split at ok
    · obtain ⟨nonneg,ok⟩ := (checkOk fun _ _ => abortOk).mp ok
      cases ok
      refine ⟨by simp,new,old,fun w p bound => ?_,fun place => by rw [place] at tensor; cases tensor⟩
      change (if w = .result id i.toNatClampNeg then some s.memory.size else s.env w) = some p at bound
      split at bound
      · rename_i same
        cases bound
        exact .inr ⟨⟨_,same⟩,rfl⟩
      · exact .inl bound
    · cases ok
      exact ⟨by simp,new,old,fun w p bound => .inl bound,fun place => by rw [place] at tensor; cases tensor⟩
  · cases ok
    exact ⟨valid v _ found,rfl,fun _ _ => rfl,fun _ _ => .inl,fun _ => ⟨rfl,rfl⟩⟩

theorem inputAndOutputOk {c : Ref × Ref} (valid : ∀ v r, s.env v = some r → r < s.memory.size)
    (ok : inputAndOutput g id s = .ok c t) : ∃ ins outs u v r, inputs (g.op id) = .ok ins ∧
      ins[0]? = some (some u) ∧ s.env u = some c.1 ∧ outputs (g.op id) = .ok outs ∧ outs[0]? = some (some v) ∧
      s.env v = some r ∧ Written g id s v r c.2 t := by
  obtain ⟨ins,inputs,ok⟩ := read liftOk ok
  obtain ⟨x,first,ok⟩ := read liftOk ok
  obtain ⟨q,_,ran,ok⟩ := bindOk.mp ok
  obtain ⟨⟨u,rfl,read⟩,rfl⟩ := valueOk.mp ran
  obtain ⟨outs,outputs,ok⟩ := Step.read liftOk ok
  obtain ⟨y,out,ok⟩ := Step.read liftOk ok
  obtain ⟨p,_,ran,ok⟩ := bindOk.mp ok
  cases ok
  obtain ⟨v,r,rfl,found,written⟩ := outputOk valid ran
  exact ⟨ins,outs,u,v,r,inputs,Outcome.ofOptionOk.mp first,read,outputs,Outcome.ofOptionOk.mp out,found,written⟩

theorem suitsAll (g : Graph) (id : OpId) : Suits α (fun _ => True) (fun _ _ _ => True) g id :=
  ⟨fun _ _ _ _ => trivial,.inr fun _ _ => trivial,fun _ _ _ _ => trivial,fun _ _ _ _ _ _ _ _ _ => trivial,
    fun _ _ _ _ _ _ => trivial⟩

variable [Scalar α]

theorem evalOpEnv (distinct : Distinct s) (ok : evalOp g id s = .ok () t) (other : ∀ i, v ≠ .result id i) :
    t.env v = s.env v :=
  (evalOpFrame (suitsAll g id) (distinct.sane _) ok).2.1 v other

theorem evalOpDistinct (distinct : Distinct s) (ok : evalOp g id s = .ok () t) : Distinct t := by
  obtain ⟨p,agree,settled⟩ := distinct.sane fun _ => True
  have agree : Agree (View.self (fun _ => True) (fun _ _ _ => True) id) p s s :=
    ⟨agree.valid,agree.owned,agree.shaped,agree.held,agree.env⟩
  obtain ⟨q,_,t',ran,after,passes,-⟩ := (suitsAll g id).kept.evalOp p (.refl p) s s agree () t ok
  have made (r : Ref) (v : Value) (holds : q.holds r v) : s.memory.size ≤ r ∧ r < t.memory.size := by
    obtain ⟨-,_,_,shape,-⟩ := after.held r v holds
    exact ⟨(passes.made r v holds).resolve_left (settled.holds r v),(after.shaped r _ _ shape).1⟩
  refine ⟨fun v r found => ?_,fun v w r found found' => ?_⟩
  · rcases passes.bound v r found with old | holds
    · exact (distinct.valid v r old).trans_le passes.size
    · exact (made r v holds).2
  · rcases passes.bound v r found with old | holds <;> rcases passes.bound w r found' with old' | holds'
    · exact distinct.apart v w r old old'
    · exact absurd (distinct.valid v r old) (Nat.not_lt.mpr (made r w holds').1)
    · exact absurd (distinct.valid w r old') (Nat.not_lt.mpr (made r v holds).1)
    · exact (after.held r w holds').1 v holds

theorem evalOpLeaves (few : (g.op id).operands.length < wordBound) (distinct : Distinct s) (keeps : ¬ WritesTo g id v)
    (ok : evalOp g id s = .ok () t) {r} (found : s.env v = some r) : t.arrayAt r = s.arrayAt r := by
  have suits : Suits α (fun w => w ≠ v) (fun _ _ _ => True) g id := by
    refine ⟨fun j w at_ place same => keeps ⟨j,same ▸ at_,same ▸ place⟩,.inl few,?_,?_,?_⟩ <;> intros <;> trivial
  exact (evalOpFrame suits (distinct.sane _) ok).2.2 v r (fun other => other rfl) found

theorem evalEachLeaves {ids} (few : ∀ j ∈ ids, (g.op j).operands.length < wordBound) (distinct : Distinct s)
    (ok : evalEach g ids s = .ok () t) : Distinct t ∧ (∀ v, (∀ j ∈ ids, ∀ i, v ≠ .result j i) → t.env v = s.env v) ∧
    ∀ v r, (∀ j ∈ ids, ¬ WritesTo g j v) → (∀ j ∈ ids, ∀ i, v ≠ .result j i) → s.env v = some r →
      t.arrayAt r = s.arrayAt r := by
  induction ids generalizing s with
  | nil =>
    cases ok
    exact ⟨distinct,fun _ _ => rfl,fun _ _ _ _ _ => rfl⟩
  | cons j ids ih =>
    obtain ⟨here,later⟩ := forall_mem_cons.mp few
    obtain ⟨_,u,first,rest⟩ := bindOk.mp ok
    obtain ⟨after,env,contents⟩ := ih later (evalOpDistinct distinct first) rest
    refine ⟨after,fun v other => ?_,fun v r keeps other found => ?_⟩ <;>
      obtain ⟨otherHere,otherLater⟩ := forall_mem_cons.mp other
    · rw [env v otherLater,evalOpEnv distinct first otherHere]
    · obtain ⟨keepsHere,keepsLater⟩ := forall_mem_cons.mp keeps
      rw [contents v r keepsLater otherLater ((evalOpEnv distinct first otherHere).trans found),
        evalOpLeaves here distinct keepsHere first found]

end TileLower.Eval

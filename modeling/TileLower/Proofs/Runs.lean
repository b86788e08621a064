import TileLower.Proofs.Operations

/-!
Runs of operations one after the other, in two machines side by side. Between two operations only arrays that some
value may be written through are still owned, so the arrays of all other values stay as they are.
-/
namespace TileLower.Eval

open TileLower.Graph Step List

variable {α : Type} [Scalar α]

def evalEach (g : Graph) : List OpId → Exec α Unit
  | [] => return ()
  | id :: rest => do
    evalOp g id
    evalEach g rest

theorem evalEachOne {g : Graph} {id : OpId} {s t : Machine α} (ran : evalOp g id s = .ok () t) :
    evalEach g [id] s = .ok () t := by
  rw [evalEach,evalEach,bindOfOk ran]
  rfl

theorem evalEachAppend {g : Graph} {pre post : List OpId} {s t : Machine α} :
    evalEach g (pre ++ post) s = .ok () t ↔ ∃ u, evalEach g pre s = .ok () u ∧ evalEach g post u = .ok () t := by
  induction pre generalizing s with
  | nil => simp [evalEach]
  | cons id pre ih =>
    rw [cons_append,evalEach,evalEach,bindOk]
    constructor
    · rintro ⟨_,u,first,rest⟩
      obtain ⟨w,ran,last⟩ := ih.mp rest
      exact ⟨w,bindOk.mpr ⟨_,u,first,ran⟩,last⟩
    · rintro ⟨w,ran,last⟩
      obtain ⟨_,u,first,rest⟩ := bindOk.mp ran
      exact ⟨_,u,first,ih.mpr ⟨w,rest,last⟩⟩

theorem evalAllCons {g : Graph} {id : OpId} {rest : List OpId} {s t : Machine α} {rs : List Ref}
    (goes : (g.op id).kind ≠ Memory.returnKind) :
    evalAll g (id :: rest) s = .ok rs t ↔ ∃ u, evalOp g id s = .ok () u ∧ evalAll g rest u = .ok rs t := by
  rw [evalAll,if_neg goes,bindOk]
  constructor
  · rintro ⟨_,u,first,last⟩
    exact ⟨u,locatedOk.mp first,last⟩
  · rintro ⟨u,first,last⟩
    exact ⟨(),u,locatedOk.mpr first,last⟩

theorem evalAllEach {g : Graph} {ids rest : List OpId} {s t u : Machine α} {rs : List Ref}
    (goes : ∀ id ∈ ids, (g.op id).kind ≠ Memory.returnKind) (ran : evalEach g ids s = .ok () u)
    (last : evalAll g rest u = .ok rs t) : evalAll g (ids ++ rest) s = .ok rs t := by
  induction ids generalizing s with
  | nil =>
    cases ran
    exact last
  | cons id ids ih =>
    obtain ⟨_,w,first,ran⟩ := bindOk.mp ran
    rw [cons_append,evalAllCons (goes id (.head _))]
    exact ⟨w,first,ih (fun j mem => goes j (.tail _ mem)) ran⟩

variable {V : View} {p q u : Pairing} {s s' t t' w : Machine α}

structure Settled (V : View) (p : Pairing) (s : Machine α) : Prop where
  holds : ∀ r v, ¬ p.holds r v
  valid : ∀ v r, s.env v = some r → r < s.memory.size
  own : ∀ r r', p.own r r' → ∃ v, V.writable v ∧ s.env v = some r
  apart : ∀ v w r, ¬ V.writable v → s.env v = some r → s.env w = some r → v = w

def Pairing.settle (V : View) (s : Machine α) (p : Pairing) : Pairing where
  same := p.same
  own r r' := p.own r r' ∧ ∃ v, V.writable v ∧ s.env v = some r
  holds _ _ := False
  shape := p.shape

structure Flows (p q : Pairing) (s t : Machine α) : Prop where
  same : ∀ r r', p.same r r' → q.same r r'
  shape : ∀ r t n, p.shape r t n → q.shape r t n
  size : s.memory.size ≤ t.memory.size
  fresh : ∀ r r', q.own r r' → p.own r r' ∨ s.memory.size ≤ r
  contents : ∀ r, r < s.memory.size → (∀ r', ¬ p.own r r') → t.arrayAt r = s.arrayAt r
  bound : ∀ v r, t.env v = some r → s.env v = some r ∨ s.memory.size ≤ r

namespace Flows

omit [Scalar α]

theorem refl (p : Pairing) (s : Machine α) : Flows p p s s :=
  ⟨fun _ _ => id,fun _ _ _ => id,le_rfl,fun _ _ => .inl,fun _ _ _ => rfl,fun _ _ => .inl⟩

theorem trans (first : Flows p q s t) (second : Flows q u t w) : Flows p u s w := by
  refine ⟨fun r r' h => second.same r r' (first.same r r' h),fun r t n h => second.shape r t n (first.shape r t n h),
    first.size.trans second.size,fun r r' own => ?_,fun r valid free => ?_,fun v r found => ?_⟩
  · exact (second.fresh r r' own).elim (first.fresh r r') fun new => .inr (first.size.trans new)
  · refine (second.contents r (valid.trans_le first.size) fun r' own => ?_).trans (first.contents r valid free)
    exact (first.fresh r r' own).elim (free r') (Nat.not_le_of_lt valid)
  · exact (second.bound v r found).elim (first.bound v r) fun new => .inr (first.size.trans new)

end Flows

omit [Scalar α] in
theorem Agree.settle (agree : Agree V p s s') : Agree V (p.settle V s) s s' := by
  refine ⟨agree.valid,fun r r' own => agree.owned r r' own.1,agree.shaped,fun _ _ => False.elim,
    fun v r live found => ?_⟩
  obtain ⟨shape,r',found',same,own⟩ := agree.env v r live found
  exact ⟨shape,r',found',same,fun writable => ⟨own writable,v,writable,found⟩⟩

omit [Scalar α] in
theorem Settled.step (settled : Settled V p s) (passes : Passes V p q s t) (agree : Agree V q t t') :
    Settled V (q.settle V t) t ∧ Flows p (q.settle V t) s t := by
  have made (r : Ref) (v : Value) (holds : q.holds r v) : s.memory.size ≤ r ∧ r < t.memory.size := by
    obtain ⟨-,_,_,shape,-⟩ := agree.held r v holds
    exact ⟨(passes.made r v holds).resolve_left (settled.holds r v),(agree.shaped r _ _ shape).1⟩
  refine ⟨⟨fun _ _ => False.elim,fun v r found => ?_,fun r r' own => own.2,fun v w r free found found' => ?_⟩,
    passes.le.same,passes.le.shape,passes.size,fun r r' own => passes.fresh r r' own.1,passes.contents,
    fun v r found => (passes.bound v r found).imp_right fun holds => (made r v holds).1⟩
  · rcases passes.bound v r found with old | holds
    · exact (settled.valid v r old).trans_le passes.size
    · exact (made r v holds).2
  · rcases passes.bound v r found with old | holds <;> rcases passes.bound w r found' with old' | holds'
    · exact settled.apart v w r free old old'
    · exact absurd (settled.valid v r old) (Nat.not_lt.mpr (made r w holds').1)
    · exact absurd (settled.valid w r old') (Nat.not_lt.mpr (made r v holds).1)
    · exact (agree.held r w holds').1 v holds

variable {g g' : Graph}

theorem evalAllKept {pre} (kept : ∀ id ∈ pre, Kept α V g g' id) (agree : Agree V p s s') (settled : Settled V p s)
    (tail : List OpId) {rs} (ok : evalAll g (pre ++ tail) s = .ok rs t) :
    (∃ q rs' t', (∀ tail', evalAll g' (pre ++ tail') s' = .ok rs' t') ∧ Forall₂ q.same rs rs' ∧ Agree V q t t' ∧
        ∀ r r', p.same r r' → q.same r r') ∨
      ∃ q u u', evalEach g pre s = .ok () u ∧ evalAll g tail u = .ok rs t ∧
        (∀ tail', evalAll g' (pre ++ tail') s' = evalAll g' tail' u') ∧ Agree V q u u' ∧ Settled V q u ∧
        Flows p q s u := by
  induction pre generalizing p s s' with
  | nil => exact .inr ⟨p,s,s',rfl,ok,fun _ => rfl,agree,settled,.refl p s⟩
  | cons id pre ih =>
    have here := kept id (.head _)
    rw [cons_append,evalAll] at ok
    by_cases stops : (g.op id).kind = Memory.returnKind
    · rw [if_pos stops] at ok
      obtain ⟨q,rs',t',ran,agree,passes,all⟩ :=
        here.values (g.op id).operands (fun _ mem => mem) p (.refl p) s s' agree rs t ok
      refine .inl ⟨q,rs',t',fun tail' => ?_,all,agree,passes.le.same⟩
      rw [cons_append,evalAll,if_pos (here.kind.trans stops),here.operands,ran]
    · rw [if_neg stops] at ok
      obtain ⟨_,w,first,last⟩ := bindOk.mp ok
      have first := locatedOk.mp first
      obtain ⟨q,_,w',first',agree,passes,-⟩ := here.evalOp p (.refl p) s s' agree () w first
      obtain ⟨settled,flows⟩ := settled.step passes agree
      have goes (tail' : List OpId) : evalAll g' (id :: pre ++ tail') s' = evalAll g' (pre ++ tail') w' := by
        rw [cons_append,evalAll,if_neg (here.kind ▸ stops),bindOfOk (locatedOk.mpr first')]
      rcases ih (fun j mem => kept j (.tail _ mem)) agree.settle settled last with
        ⟨q',rs',t',ran,all,agree,same⟩ | ⟨q',x,x',ran,last,ran',agree,settled,flows'⟩
      · exact .inl ⟨q',rs',t',fun tail' => (goes tail').trans (ran tail'),all,agree,
          fun r r' h => same r r' (flows.same r r' h)⟩
      · exact .inr ⟨q',x,x',bindOk.mpr ⟨_,w,first,ran⟩,last,fun tail' => (goes tail').trans (ran' tail'),
          agree,settled,flows.trans flows'⟩

section Start

omit [Scalar α]

theorem bindArgumentsNext {i} {slot : Slot} {ss r rs} (ok : bindArguments g i (slot :: ss) (r :: rs) s = .ok () t) :
    (s.arrayAt r).type = slot.type ∧ bindArguments g (i + 1) ss rs
      (if slot.type.isTensor then s.bindFresh (.argument body i) (s.arrayAt r)
        else s.bound (.argument body i) r) = .ok () t := by
  by_cases type : (s.arrayAt r).type = slot.type
  · exact ⟨type,(bindArgumentsCons type).symm.trans ok⟩
  · rw [bindArguments,bindOfOk (arrayRun r s),if_pos type] at ok
    obtain ⟨_,_,failed,-⟩ := bindOk.mp ok
    exact absurd failed failOk

structure Binds (ss : List Slot) (rs : List Ref) (i : Nat) (s t : Machine α) : Prop where
  size : s.memory.size ≤ t.memory.size
  contents : ∀ r, r < s.memory.size → t.arrayAt r = s.arrayAt r
  bound : ∀ v r, t.env v = some r → s.env v = some r ∨ ∃ k slot q, v = .argument body (i + k) ∧
    ss[k]? = some slot ∧ rs[k]? = some q ∧ t.arrayAt r = s.arrayAt q ∧ (s.arrayAt q).type = slot.type ∧
    r < t.memory.size ∧ (if slot.type.isTensor then s.memory.size ≤ r else r = q)
  apart : ∀ v w r, s.memory.size ≤ r → t.env v = some r → t.env w = some r → v = w

theorem Binds.none {ss rs i} (env : ∀ v r, s.env v = some r → r < s.memory.size) : Binds ss rs i s s :=
  ⟨le_rfl,fun _ _ => rfl,fun _ _ => .inl,fun v _ r new found _ => absurd (env v r found) (Nat.not_lt.mpr new)⟩

theorem bindArgument {slot : Slot} {q i} (hq : q < s.memory.size)
    (first : (if slot.type.isTensor then s.bindFresh (.argument body i) (s.arrayAt q)
      else s.bound (.argument body i) q) = t) :
    s.memory.size ≤ t.memory.size ∧ (∀ r, r < s.memory.size → t.arrayAt r = s.arrayAt r) ∧
      ∀ v r, t.env v = some r → s.env v = some r ∨ v = .argument body i ∧ t.arrayAt r = s.arrayAt q ∧
        r < t.memory.size ∧ if slot.type.isTensor then s.memory.size = r else r = q := by
  by_cases tensor : slot.type.isTensor = true
  · rw [if_pos tensor] at first
    subst first
    refine ⟨by simp,fun r old => s.arrayAtOld old,fun v r found => ?_⟩
    rw [s.bindFreshEnv] at found
    by_cases here : v = .argument body i
    · rw [if_pos here] at found
      cases found
      exact .inr ⟨here,s.arrayAtNew,by simp,by rw [if_pos tensor]⟩
    · rw [if_neg here] at found
      exact .inl found
  · rw [if_neg tensor] at first
    subst first
    refine ⟨le_rfl,fun _ _ => rfl,fun v r found => ?_⟩
    rw [s.boundEnv] at found
    by_cases here : v = .argument body i
    · rw [if_pos here] at found
      cases found
      exact .inr ⟨here,rfl,hq,by rw [if_neg tensor]⟩
    · rw [if_neg here] at found
      exact .inl found

theorem bindArgumentsOk {i ss rs} (ok : bindArguments g i ss rs s = .ok () t) (valid : ∀ r ∈ rs, r < s.memory.size)
    (env : ∀ v r, s.env v = some r → r < s.memory.size) :
    Binds ss rs i s t := by
  induction rs generalizing i ss s with
  | nil => cases ss <;> (cases ok; exact .none env)
  | cons q rs ih =>
    cases ss with
    | nil => cases ok; exact .none env
    | cons slot ss =>
      obtain ⟨type,rest⟩ := bindArgumentsNext ok
      obtain ⟨hq,later⟩ := forall_mem_cons.mp valid
      generalize first : (if slot.type.isTensor then s.bindFresh (.argument body i) (s.arrayAt q)
        else s.bound (.argument body i) q) = u at rest
      obtain ⟨grown,contents,place⟩ := bindArgument hq first
      have old (v : Value) (r : Ref) (found : u.env v = some r) : r < u.memory.size := by
        rcases place v r found with before | ⟨-,-,within,-⟩
        · exact (env v r before).trans_le grown
        · exact within
      have binds := ih rest (fun r mem => (later r mem).trans_le grown) old
      refine ⟨grown.trans binds.size,fun r within => ?_,fun v r found => ?_,fun v w r new found found' => ?_⟩
      · rw [binds.contents r (within.trans_le grown),contents r within]
      · rcases binds.bound v r found with before | ⟨k,slot',q',name,atSlot,atRef,same,type',within,where_⟩
        · rcases place v r before with before | ⟨name,same,within,where_⟩
          · exact .inl before
          · refine .inr ⟨0,slot,q,name,rfl,rfl,?_,type,within.trans_le binds.size,?_⟩
            · rw [binds.contents r within,same]
            · split at where_
              · rw [if_pos ‹_›,where_]
              · rw [if_neg ‹_›,where_]
        · have source := contents q' (later q' (mem_of_getElem? atRef))
          refine .inr ⟨k + 1,slot',q',?_,atSlot,atRef,same.trans source,source ▸ type',within,?_⟩
          · rw [name,Nat.add_right_comm,Nat.add_assoc]
          · split at where_
            · rw [if_pos ‹_›]
              exact grown.trans where_
            · rw [if_neg ‹_›]
              exact where_
      · have origin (v : Value) (found : t.env v = some r) (small : r < u.memory.size) : v = .argument body i := by
          rcases binds.bound v r found with before | ⟨k,slot',q',-,-,atRef,-,-,-,where_⟩
          · rcases place v r before with before | ⟨name,-⟩
            · exact absurd (env v r before) (Nat.not_lt.mpr new)
            · exact name
          · split at where_
            · exact absurd small (Nat.not_lt.mpr where_)
            · exact absurd (where_ ▸ later q' (mem_of_getElem? atRef)) (Nat.not_lt.mpr new)
        rcases Nat.lt_or_ge r u.memory.size with small | large
        · rw [origin v found small,origin w found' small]
        · exact binds.apart v w r large found found'

variable {memory : Array (NdArray α)} {args : List Ref}

structure Started (g : Graph) (memory : Array (NdArray α)) (args : List Ref) (s : Machine α) : Prop where
  length : args.length = (g.block body).args.length
  bound : bindArguments g 0 (g.block body).args args ⟨memory,fun _ => none⟩ = .ok () s
  valid : ∀ r ∈ args, r < memory.size

def Started.pairing (V : View) (s : Machine α) : Pairing where
  same r r' := r = r' ∧ r < s.memory.size
  own r r' := (r = r' ∧ r < s.memory.size) ∧ ∃ v, V.writable v ∧ s.env v = some r
  holds _ _ := False
  shape r t n := r < s.memory.size ∧ (s.arrayAt r).type = t ∧ (s.arrayAt r).data.size = n

theorem Agree.self (own : ∀ v r, V.live v → s.env v = some r → V.rename v = v ∧ r < s.memory.size)
    (fits : ∀ v r, V.live v → s.env v = some r → V.fits v (s.arrayAt r).type (s.arrayAt r).data.size) :
    Agree V (Started.pairing V s) s s := by
  refine ⟨?_,?_,fun _ _ _ h => h,fun _ _ => False.elim,fun v r live found => ?_⟩
  · rintro r _ ⟨rfl,within⟩
    exact ⟨within,within,rfl⟩
  · rintro r _ ⟨⟨rfl,within⟩,-⟩
    refine ⟨⟨rfl,within⟩,?_⟩
    rintro q _ ⟨rfl,-⟩
    rfl
  · obtain ⟨name,within⟩ := own v r live found
    refine ⟨⟨_,_,⟨within,rfl,rfl⟩,fits v r live found⟩,r,by rw [name,found],⟨rfl,within⟩,fun writable => ?_⟩
    exact ⟨⟨rfl,within⟩,_,writable,found⟩

namespace Started

variable (started : Started g memory args s)

include started

theorem binds : Binds (g.block body).args args 0 ⟨memory,fun _ => none⟩ s :=
  bindArgumentsOk started.bound started.valid fun _ _ none => nomatch none

theorem argument {v r} (found : s.env v = some r) : ∃ k q, v = .argument body k ∧
    args[k]? = some q ∧ s.arrayAt r = memory.getD q default ∧ (s.arrayAt r).type = g.typeOf v ∧ r < s.memory.size ∧
    ((g.typeOf v).isTensor = true → memory.size ≤ r) := by
  rcases started.binds.bound v r found with none | ⟨k,slot,q,name,atSlot,atRef,same,type,within,place⟩
  · cases none
  · have declared : g.typeOf v = slot.type := by
      rw [name,Nat.zero_add,typeOf,Graph.slot,getD_eq_getElem?_getD,atSlot]
      rfl
    refine ⟨k,q,by rw [name,Nat.zero_add],atRef,same,by rw [same,type,declared],within,fun tensor => ?_⟩
    rw [if_pos (declared ▸ tensor)] at place
    exact place

theorem agree (names : ∀ b i, V.rename (.argument b i) = .argument b i)
    (fits : ∀ v r, V.live v → s.env v = some r → V.fits v (s.arrayAt r).type (s.arrayAt r).data.size) :
    Agree V (pairing V s) s s := by
  refine .self (fun v r _ found => ?_) fits
  obtain ⟨k,q,rfl,-,-,-,within,-⟩ := started.argument found
  exact ⟨names _ _,within⟩

theorem carry (name : g'.name = g.name) (slots : (g'.block body).args = (g.block body).args) :
    Started g' memory args s := by
  have same (i : Nat) (ss : List Slot) (rs : List Ref) :
      (bindArguments g' i ss rs : Exec α Unit) = bindArguments g i ss rs := by
    induction rs generalizing i ss with
    | nil => cases ss <;> rfl
    | cons r rs ih =>
      cases ss with
      | nil => rfl
      | cons slot ss => simp only [bindArguments,name,ih]
  refine ⟨?_,?_,started.valid⟩
  · rw [slots]
    exact started.length
  · rw [slots,same]
    exact started.bound

theorem settled (tensors : ∀ k, ¬ V.writable (.argument body k) →
    (g.typeOf (.argument body k)).isTensor = true) : Settled V (pairing V s) s := by
  refine ⟨fun _ _ => id,fun v r found => ?_,fun r r' own => own.2,fun v w r free found found' => ?_⟩
  · obtain ⟨_,_,-,-,-,-,within,-⟩ := started.argument found
    exact within
  · obtain ⟨k,q,rfl,-,-,-,-,new⟩ := started.argument found
    exact started.binds.apart _ w r (new (tensors k free)) found found'

end Started

end Start

theorem evalFunctionOk {memory : Array (NdArray α)} {args} (valid : ∀ r ∈ args, r < memory.size) {rs} :
    evalFunction g args ⟨memory,fun _ => none⟩ = .ok rs t ↔
      ∃ s, Started g memory args s ∧ evalAll g (g.block body).ops s = .ok rs t := by
  unfold evalFunction
  by_cases length : args.length = (g.block body).args.length
  · rw [if_neg (not_not_intro length),bindOk]
    constructor
    · rintro ⟨_,s,bound,ran⟩
      exact ⟨s,⟨length,bound,valid⟩,ran⟩
    · rintro ⟨s,started,ran⟩
      exact ⟨(),s,started.bound,ran⟩
  · rw [if_pos length]
    constructor
    · intro ok
      obtain ⟨_,_,failed,-⟩ := bindOk.mp ok
      exact absurd failed failOk
    · rintro ⟨s,started,-⟩
      exact absurd started.length length

/-- Wherever the first function gives results, the second gives the same, and leaves the same in memory. -/
def Refines (g g' : Graph) (memory : Array (NdArray α)) (args : List Ref) : Prop :=
  ∀ xs, (run g memory args).results = .ok xs → (run g' memory args).results = .ok xs ∧
    ∀ r, r < memory.size → (run g' memory args).memory[r]? = (run g memory args).memory[r]?

theorem runOk {memory : Array (NdArray α)} {args : List Ref} {xs : List (NdArray α)} :
    (run g memory args).results = .ok xs ↔ ∃ rs t, evalFunction g args ⟨memory,fun _ => none⟩ = .ok rs t ∧
      xs = rs.map t.arrayAt ∧ (run g memory args).memory = t.memory := by
  unfold run
  cases ended : evalFunction g args ⟨memory,fun _ => none⟩ with
  | error f t => simp
  | ok rs t =>
    constructor
    · intro same
      cases same
      exact ⟨rs,t,rfl,rfl,rfl⟩
    · rintro ⟨_,_,same,rfl,-⟩
      cases same
      rfl

theorem refinesOfPaired {memory : Array (NdArray α)} {args : List Ref} (valid : ∀ r ∈ args, r < memory.size)
    (paired : ∀ s rs t, Started g memory args s → evalAll g (g.block body).ops s = .ok rs t →
      ∃ V q rs' t', Started g' memory args s ∧ evalAll g' (g'.block body).ops s = .ok rs' t' ∧
        Forall₂ q.same rs rs' ∧ Agree V q t t' ∧ ∀ r, r < s.memory.size → q.same r r) : Refines g g' memory args := by
  intro xs ok
  obtain ⟨rs,t,ended,rfl,left⟩ := runOk.mp ok
  obtain ⟨s,started,ran⟩ := (evalFunctionOk valid).mp ended
  obtain ⟨_,q,rs',t',started',ran',all,agree,same⟩ := paired s rs t started ran
  have ended' := (evalFunctionOk valid).mpr ⟨s,started',ran'⟩
  have results : rs'.map t'.arrayAt = rs.map t.arrayAt := by
    clear ran ran' ended ended' ok
    induction all with
    | nil => rfl
    | cons here _ ih => rw [map_cons,map_cons,ih,(agree.valid _ _ here).2.2]
  have ok' : (run g' memory args).results = .ok (rs.map t.arrayAt) := by
    rw [run,ended',← results]
    rfl
  obtain ⟨rs'',t'',ended'',-,left'⟩ := runOk.mp ok'
  rw [ended'] at ended''
  cases ended''
  refine ⟨ok',fun r within => ?_⟩
  obtain ⟨valid,valid',contents⟩ := agree.valid r r (same r (within.trans_le started.binds.size))
  rw [left,left',Array.getElem?_eq_getElem valid,Array.getElem?_eq_getElem valid']
  simpa [Machine.arrayAt,Array.getD,valid,valid'] using congrArg some contents.symm

end TileLower.Eval

import TileLower.Proofs.Machines

/-!
Loop nests. The points of a nest that write one element of the outputs are a fold on that element, and a nest
ends exactly if all these folds do. Two nests are compared element by element.
-/
namespace TileLower

open Outcome List

section Keyed

variable {ι κ ν : Type} [DecidableEq κ] (key : ι → κ) (step : ι → ν → Outcome ν)

def keyedStep (c : κ → ν) (i : ι) : Outcome (κ → ν) := do
  .ok (Function.update c (key i) (← step i (c (key i))))

theorem keyedLoopOk {is : List ι} {c e} : is.foldlM (keyedStep key step) c = .ok e ↔
      ∀ k, (is.filter (key · = k)).foldlM (fun v i => step i v) (c k) = .ok (e k) := by
  induction is generalizing c with
  | nil =>
    simp only [foldlM_nil,filter_nil,pureOk]
    exact funext_iff
  | cons i is ih =>
    simp only [foldlM_cons,bindOk,keyedStep]
    constructor
    · rintro ⟨d,⟨v,stepped,same⟩,rest⟩ k
      cases same
      have here := ih.mp rest k
      by_cases at_ : key i = k
      · subst at_
        rw [Function.update_self] at here
        rw [filter_cons_of_pos (by simp),foldlM_cons,stepped]
        exact here
      · rw [Function.update_of_ne (Ne.symm at_)] at here
        rw [filter_cons_of_neg (by simpa using at_)]
        exact here
    · intro all
      have here := all (key i)
      rw [filter_cons_of_pos (by simp),foldlM_cons] at here
      obtain ⟨v,stepped,rest⟩ := bindOk.mp here
      refine ⟨_,⟨v,stepped,rfl⟩,ih.mpr fun k => ?_⟩
      by_cases at_ : key i = k
      · subst at_
        rw [Function.update_self]
        exact rest
      · rw [Function.update_of_ne (Ne.symm at_)]
        have there := all k
        rwa [filter_cons_of_neg (by simpa using at_)] at there

end Keyed

theorem mapEqOfZip {ι κ} {is : List ι} {ks : List κ} {f} (length : ks.length = is.length)
    (each : ∀ e ∈ is.zip ks, f e.1 = e.2) : is.map f = ks := by
  induction is generalizing ks with
  | nil => exact (length_eq_zero_iff.mp length).symm
  | cons i is ih =>
    cases ks with
    | nil => simp at length
    | cons k ks =>
      rw [map_cons,each (i, k) (by simp),ih (by simpa using length) fun e mem => each e (by simp [mem])]

theorem zipPartner {ι κ} {is : List ι} {ks : List κ} (length : ks.length = is.length) {i} (mem : i ∈ is) :
    ∃ k, (i, k) ∈ is.zip ks := by
  have image : i ∈ (is.zip ks).map Prod.fst := by rwa [map_fst_zip (by omega)]
  obtain ⟨⟨_,k⟩,pair,rfl⟩ := mem_map.mp image
  exact ⟨k,pair⟩

theorem foldlMImp {ι κ ν : Type} {f : ν → ι → Outcome ν} {h : ν → κ → Outcome ν} {p : ι → κ} {is : List ι}
    (one : ∀ i ∈ is, ∀ v w, f v i = .ok w → h v (p i) = .ok w) {v w : ν} (ok : is.foldlM f v = .ok w) :
    (is.map p).foldlM h v = .ok w := by
  induction is generalizing v with
  | nil => exact ok
  | cons i is ih =>
    rw [foldlM_cons] at ok
    obtain ⟨u,first,last⟩ := bindOk.mp ok
    rw [map_cons,foldlM_cons,one i (.head _) v u first]
    exact ih (fun i hi => one i (.tail _ hi)) last

namespace Eval

open Box (Inside)

variable {α : Type}

def readAll (idx : List Int64) : List (AffineMap × NdArray α) → Outcome (List α)
  | [] => .ok []
  | (m, a) :: rest => do
    let x ← a.get (← m.eval idx)
    let xs ← readAll idx rest
    .ok (x :: xs)

def held (s : Machine α) (operands : List (AffineMap × Ref)) : List (AffineMap × NdArray α) :=
  operands.map fun p => (p.1, s.arrayAt p.2)

theorem loadAllOk {idx : List Int64} {operands : List (AffineMap × Ref)} {s t : Machine α} {xs : List α} :
    loadAll idx operands s = .ok xs t ↔ readAll idx (held s operands) = .ok xs ∧ s = t := by
  induction operands generalizing xs with
  | nil =>
    show EStateM.Result.ok [] s = _ ↔ Except.ok [] = _ ∧ _
    simp
  | cons p rest ih =>
    have load (i : List Int64) (x : α) (u : Machine α) :
        load p.2 i s = .ok x u ↔ (s.arrayAt p.2).get i = .ok x ∧ s = u := liftOk
    simp only [loadAll,Step.bindOk,liftOk,Step.pureOk,held,map_cons,readAll,bindOk]
    constructor
    · rintro ⟨i,_,⟨map,rfl⟩,x,_,got,ys,_,others,rfl,rfl⟩
      obtain ⟨here,rfl⟩ := (load ..).mp got
      obtain ⟨there,rfl⟩ := ih.mp others
      exact ⟨⟨i,map,x,here,ys,there,rfl⟩,rfl⟩
    · rintro ⟨⟨i,map,x,got,ys,others,same⟩,rfl⟩
      cases same
      exact ⟨i,s,⟨map,rfl⟩,x,s,(load ..).mpr ⟨got,rfl⟩,ys,s,ih.mpr ⟨others,rfl⟩,rfl,rfl⟩

theorem readAllAppend {idx : List Int64} {l r : List (AffineMap × NdArray α)} {zs : List α} :
    readAll idx (l ++ r) = .ok zs ↔ ∃ xs ys, readAll idx l = .ok xs ∧ readAll idx r = .ok ys ∧ zs = xs ++ ys := by
  induction l generalizing zs with
  | nil => simp [readAll]
  | cons p l ih =>
    simp only [cons_append,readAll,bindOk,ih]
    constructor
    · rintro ⟨i,map,x,got,_,⟨xs,ys,hl,hr,rfl⟩,same⟩
      cases same
      exact ⟨x :: xs,ys,⟨i,map,x,got,xs,hl,rfl⟩,hr,rfl⟩
    · rintro ⟨_,ys,⟨i,map,x,got,xs,hl,same⟩,hr,rfl⟩
      cases same
      exact ⟨i,map,x,got,xs ++ ys,⟨xs,ys,hl,hr,rfl⟩,rfl⟩

theorem storeAllRun {idx} {outs : List (AffineMap × Ref)} {ks k} {t : Machine α} {ys : List α}
    (maps : ∀ p ∈ outs, p.1.eval idx = .ok (words k)) (inside : outs = [] ∨ Inside k ks)
    (distinct : (outs.map Prod.snd).Nodup) (full : ∀ p ∈ outs, (t.arrayAt p.2).Full ks)
    (length : outs.length = ys.length) :
    ∃ u, storeAll idx (outs.zip ys) t = .ok () u ∧ u.env = t.env ∧ u.memory.size = t.memory.size ∧
      (∀ r, (∀ p ∈ outs, p.2 ≠ r) → u.arrayAt r = t.arrayAt r) ∧ ∀ e ∈ outs.zip ys,
      u.arrayAt e.1.2 = (t.arrayAt e.1.2).put ks k e.2 := by
  induction outs generalizing t ys with
  | nil =>
    cases ys with
    | nil => exact ⟨t,rfl,rfl,rfl,fun _ _ => rfl,by simp⟩
    | cons => simp at length
  | cons p outs ih =>
    cases ys with
    | nil => simp at length
    | cons y ys =>
      obtain ⟨here,maps⟩ := forall_mem_cons.mp maps
      obtain ⟨fullHere,full⟩ := forall_mem_cons.mp full
      obtain ⟨fresh,distinct⟩ := nodup_cons.mp distinct
      have within : Inside k ks := inside.resolve_left (by simp)
      have valid := fullValid fullHere
      have apart (q : AffineMap × Ref) (mem : q ∈ outs) : q.2 ≠ p.2 :=
        fun same => fresh (same ▸ mem_map_of_mem mem)
      have stored := storeRun fullHere within y
      obtain ⟨u,ran,env,size,other,written⟩ := ih (t := t.withArray p.2 ((t.arrayAt p.2).put ks k y)) maps
        (.inr within) distinct (fun q mem => by rw [t.withArrayOther _ valid (apart q mem)]; exact full q mem)
        (by simpa using length)
      refine ⟨u,?_,env,size.trans (by simp),fun r away => ?_,fun e mem => ?_⟩
      · rw [zip_cons_cons,storeAll,here,Step.bindOfOk (x := lift _) rfl,Step.bindOfOk stored,ran]
      · obtain ⟨notHere,away⟩ := forall_mem_cons.mp away
        rw [other r away,t.withArrayOther _ valid (Ne.symm notHere)]
      · rcases mem_cons.mp (zip_cons_cons .. ▸ mem) with rfl | later
        · rw [other p.2 apart,t.withArrayHere _ valid]
        · rw [written e later,t.withArrayOther _ valid (apart e.1 (of_mem_zip later).1)]

variable [Scalar α]

structure Shows (s : Machine α) (outs : List (AffineMap × Ref)) (ks : List Nat) (c : List Nat → List α)
    (t : Machine α) : Prop where
  env : t.env = s.env
  size : t.memory.size = s.memory.size
  other : ∀ r, (∀ p ∈ outs, p.2 ≠ r) → t.arrayAt r = s.arrayAt r
  full : ∀ p ∈ outs, (t.arrayAt p.2).Full ks ∧ (t.arrayAt p.2).type = (s.arrayAt p.2).type
  cells : ∀ k, outs = [] ∨ Inside k ks → outs.map (fun p => (t.arrayAt p.2).cell ks k) = c k

theorem readOutsOk {idx} {outs : List (AffineMap × Ref)} {ks k : List Nat} {t : Machine α} {vs}
    (maps : ∀ p ∈ outs, p.1.eval idx = .ok (words k)) (same : k.length = ks.length) (small : Small k)
    (full : ∀ p ∈ outs, (t.arrayAt p.2).Full ks) :
    readAll idx (held t outs) = .ok vs ↔
      (outs = [] ∨ Inside k ks) ∧ outs.map (fun p => (t.arrayAt p.2).cell ks k) = vs := by
  induction outs generalizing vs with
  | nil =>
    show Except.ok [] = _ ↔ _
    simp
  | cons p outs ih =>
    obtain ⟨here,maps⟩ := forall_mem_cons.mp maps
    obtain ⟨fullHere,full⟩ := forall_mem_cons.mp full
    have rest := @ih (outs.map fun p => (t.arrayAt p.2).cell ks k) maps full
    simp only [held,map_cons,readAll,here,bindOfOk,bindOk,fullHere.getOk same small]
    constructor
    · rintro ⟨x,⟨inside,rfl⟩,xs,others,ok⟩
      cases ok
      obtain ⟨-,rfl⟩ := (ih maps full).mp others
      exact ⟨.inr inside,rfl⟩
    · rintro ⟨inside,rfl⟩
      have within : Inside k ks := inside.resolve_left (by simp)
      exact ⟨_,⟨within,rfl⟩,_,rest.mpr ⟨.inr within,rfl⟩,rfl⟩

theorem pointOk {g : Graph} {b : BlockId} {ins outs : List (AffineMap × Ref)} {idx : List Int64} {t u : Machine α}
    (few : (ins ++ outs).length < wordBound) :
    point g b (Int64.ofNat ins.length) (ins ++ outs) idx t = .ok () u ↔
      ∃ xs vs ys, readAll idx (held t ins) = .ok xs ∧ readAll idx (held t outs) = .ok vs ∧
        evalBody g b (xs ++ vs) = .ok ys ∧ ys.length = outs.length ∧ storeAll idx (outs.zip ys) t = .ok () u := by
  have fewIns : ins.length < wordBound := lt_of_le_of_lt (by simp) few
  have inRange : ¬ (Int64.ofNat ins.length < 0 ∨ Int64.ofNat (ins ++ outs).length < Int64.ofNat ins.length) := by
    rintro (negative | less)
    · exact Word.notNegative fewIns negative
    · rw [Word.ofNatLtIff few fewIns,length_append] at less
      omega
  have all : held t (ins ++ outs) = held t ins ++ held t outs := map_append
  simp only [point,Step.bindOk,loadAllOk,liftOk,if_neg inRange,Word.toNatOfNat fewIns,drop_left,all,
    readAllAppend]
  constructor
  · rintro ⟨_,_,⟨⟨xs,vs,hx,hv,rfl⟩,rfl⟩,ys,_,⟨body,rfl⟩,rest⟩
    split at rest
    · obtain ⟨_,_,failed,_⟩ := Step.bindOk.mp rest
      exact absurd failed failOk
    · rename_i length
      exact ⟨xs,vs,ys,hx,hv,body,not_not.mp length,rest⟩
  · rintro ⟨xs,vs,ys,hx,hv,body,length,rest⟩
    refine ⟨_,t,⟨⟨xs,vs,hx,hv,rfl⟩,rfl⟩,ys,t,⟨body,rfl⟩,?_⟩
    rw [if_neg (not_not.mpr length)]
    exact rest

def nestStep (g : Graph) (b : BlockId) (n : Nat) (ks : List Nat) (reads : Outcome (List α)) (k : List Nat)
    (v : List α) : Outcome (List α) := do
  let ys ← evalBody g b ((← reads) ++ v)
  if (n = 0 ∨ Inside k ks) ∧ ys.length = n then .ok ys else Outcome.abort

theorem nestStepOk {g b n ks k reads} {v w : List α} : nestStep g b n ks reads k v = .ok w ↔
      (∃ xs, reads = .ok xs ∧ evalBody g b (xs ++ v) = .ok w) ∧ (n = 0 ∨ Inside k ks) ∧ w.length = n := by
  simp only [nestStep,bindOk]
  constructor
  · rintro ⟨xs,read,ys,body,ok⟩
    split at ok
    · rename_i valid
      cases ok
      exact ⟨⟨xs,read,body⟩,valid⟩
    · exact absurd ok Outcome.abortOk
  · rintro ⟨⟨xs,read,body⟩,valid⟩
    exact ⟨xs,read,w,body,if_pos valid⟩

section Point

variable {g : Graph} {b : BlockId} {ins outs : List (AffineMap × Ref)} {ks k idx : List Nat} {s t : Machine α}
  {c : List Nat → List α} (few : (ins ++ outs).length < wordBound) (distinct : (outs.map Prod.snd).Nodup)
  (apart : ∀ p ∈ ins, ∀ q ∈ outs, q.2 ≠ p.2) (maps : ∀ p ∈ outs, p.1.eval (words idx) = .ok (words k))
  (same : k.length = ks.length) (small : Small k) (shows_ : Shows s outs ks c t)

include apart shows_ in
theorem heldInputs : held t ins = held s ins :=
  map_congr_left fun p mem => by rw [shows_.other p.2 (apart p mem)]

include maps distinct shows_ in
theorem storeShows {ys : List α} (inside : outs = [] ∨ Inside k ks) (length : ys.length = outs.length) :
    ∃ u, storeAll (words idx) (outs.zip ys) t = .ok () u ∧ Shows s outs ks (Function.update c k ys) u := by
  obtain ⟨u,ran,env,size,other,written⟩ :=
    storeAllRun maps inside distinct (fun p mem => (shows_.full p mem).1) length.symm
  refine ⟨u,ran,env.trans shows_.env,size.trans shows_.size,fun r away => ?_,fun p mem => ?_,fun j at_ => ?_⟩
  · rw [other r away,shows_.other r away]
  · obtain ⟨y,pair⟩ := zipPartner length mem
    obtain ⟨full,type⟩ := shows_.full p mem
    rw [written (p, y) pair]
    exact ⟨full.put k y,type⟩
  · by_cases here : j = k
    · subst here
      rw [Function.update_self]
      refine mapEqOfZip length fun e pair => ?_
      have mem := (of_mem_zip pair).1
      have within : Inside j ks := at_.resolve_left (ne_nil_of_mem mem)
      rw [written e pair,(shows_.full e.1 mem).1.putCell within within,if_pos rfl]
    · rw [Function.update_of_ne here,← shows_.cells j at_]
      refine map_congr_left fun p mem => ?_
      obtain ⟨y,pair⟩ := zipPartner length mem
      have within (h : outs = [] ∨ Inside j ks) := h.resolve_left (ne_nil_of_mem mem)
      rw [written (p, y) pair,(shows_.full p mem).1.putCell (inside.resolve_left (ne_nil_of_mem mem))
        (within at_),if_neg here]

include few distinct apart maps same small shows_ in
theorem pointFollowed {u : Machine α} (ok : point g b (Int64.ofNat ins.length) (ins ++ outs) (words idx) t = .ok () u) :
    ∃ w, nestStep g b outs.length ks (readAll (words idx) (held s ins)) k (c k) = .ok w ∧
      Shows s outs ks (Function.update c k w) u := by
  obtain ⟨xs,vs,ys,hx,hv,body,length,stored⟩ := (pointOk few).mp ok
  rw [heldInputs apart shows_] at hx
  obtain ⟨inside,rfl⟩ := (readOutsOk maps same small fun p mem => (shows_.full p mem).1).mp hv
  rw [shows_.cells k inside] at body
  obtain ⟨u',stored',result⟩ := storeShows distinct maps shows_ inside length
  cases stored.symm.trans stored'
  exact ⟨ys,nestStepOk.mpr ⟨⟨xs,hx,body⟩,inside.imp_left (by simp [·]),length⟩,result⟩

include few distinct apart maps same small shows_ in
theorem pointFollows {w : List α}
    (ok : nestStep g b outs.length ks (readAll (words idx) (held s ins)) k (c k) = .ok w) :
    ∃ u, point g b (Int64.ofNat ins.length) (ins ++ outs) (words idx) t = .ok () u ∧
      Shows s outs ks (Function.update c k w) u := by
  obtain ⟨⟨xs,hx,body⟩,inside,length⟩ := nestStepOk.mp ok
  have inside : outs = [] ∨ Inside k ks := inside.imp_left length_eq_zero_iff.mp
  obtain ⟨u,stored,result⟩ := storeShows distinct maps shows_ inside length
  have hv := (readOutsOk maps same small fun p mem => (shows_.full p mem).1).mpr ⟨inside,rfl⟩
  rw [shows_.cells k inside] at hv
  exact ⟨u,(pointOk few).mpr ⟨xs,_,w,heldInputs apart shows_ ▸ hx,hv,body,length,stored⟩,result⟩

end Point

def tuple (s : Machine α) (outs : List (AffineMap × Ref)) (ks k : List Nat) : List α :=
  outs.map fun p => (s.arrayAt p.2).cell ks k

section Nest

variable {g : Graph} {b : BlockId} {ins outs : List (AffineMap × Ref)} {ks es : List Nat} {s : Machine α}
  {key : List Nat → List Nat} (smallExtents : Small es) (few : (ins ++ outs).length < wordBound)
  (distinct : (outs.map Prod.snd).Nodup) (apart : ∀ p ∈ ins, ∀ q ∈ outs, q.2 ≠ p.2)
  (full : ∀ p ∈ outs, (s.arrayAt p.2).Full ks)
  (maps : ∀ idx, Inside idx es → ∀ p ∈ outs, p.1.eval (words idx) = .ok (words (key idx)))
  (keys : ∀ idx, Inside idx es → (key idx).length = ks.length ∧ Small (key idx))

include full in
theorem showsStart : Shows s outs ks (tuple s outs ks) s :=
  ⟨rfl,rfl,fun _ _ => rfl,fun p mem => ⟨full p mem,rfl⟩,fun _ _ => rfl⟩

include smallExtents few distinct apart full maps keys

theorem nestFollowed {t} (ok : Box.each (words es) (point g b (Int64.ofNat ins.length) (ins ++ outs)) s = .ok () t) :
    ∃ c, Shows s outs ks c t ∧ ∀ k, ((Box.grid es).filter (key · = k)).foldlM (fun v idx =>
      nestStep g b outs.length ks (readAll (words idx) (held s ins)) (key idx) v) (tuple s outs ks k) = .ok (c k) := by
  rw [Box.eachAlong smallExtents] at ok
  obtain ⟨c,loop,shows_⟩ := alongFollowed
    (keyedStep key fun idx => nestStep g b outs.length ks (readAll (words idx) (held s ins)) (key idx))
    (Shows s outs ks) (fun idx mem c t u shows_ ran => by
      have inside := Box.memGrid.mp mem
      obtain ⟨w,step,shows_⟩ := pointFollowed few distinct apart (maps idx inside) (keys idx inside).1
        (keys idx inside).2 shows_ ran
      exact ⟨_,by rw [keyedStep,step,bindOfOk],shows_⟩) (showsStart full) ok
  exact ⟨c,shows_,(keyedLoopOk key _).mp loop⟩

theorem nestFollows {c} (ok : ∀ k, ((Box.grid es).filter (key · = k)).foldlM (fun v idx =>
      nestStep g b outs.length ks (readAll (words idx) (held s ins)) (key idx) v) (tuple s outs ks k) = .ok (c k)) :
    ∃ t, Box.each (words es) (point g b (Int64.ofNat ins.length) (ins ++ outs)) s = .ok () t ∧ Shows s outs ks c t := by
  rw [Box.eachAlong smallExtents]
  refine alongFollows (keyedStep key fun idx =>
      nestStep g b outs.length ks (readAll (words idx) (held s ins)) (key idx)) (Shows s outs ks)
    (fun idx mem c d t shows_ stepped => ?_) (showsStart full) ((keyedLoopOk key _).mpr ok)
  have inside := Box.memGrid.mp mem
  obtain ⟨w,step,same⟩ := bindOk.mp stepped
  cases same
  exact pointFollows few distinct apart (maps idx inside) (keys idx inside).1 (keys idx inside).2 shows_ step

end Nest

end Eval

end TileLower

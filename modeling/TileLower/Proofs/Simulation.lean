import TileLower.Proofs.Machines

/-!
Two machines side by side, on arrays that are paired. Values may have other names in the second machine, and arrays
other numbers.
-/
namespace TileLower.Eval

open Machine

variable {α β γ δ ε : Type}

/-- How values are renamed, which of them still count, through which of them arrays may be written, which of them
may be bound, and to arrays of which type and size. -/
structure View where
  rename : Value → Value
  live : Value → Prop
  writable : Value → Prop
  bindable : Value → Prop
  fits : Value → ValueType → Nat → Prop
  kept : ∀ v, bindable v → rename v = v
  only : ∀ v, bindable v → ∀ w, live w → rename w = v → w = v

/-- Arrays with the same contents, and among them the pairs that no other pair shares an array with. Of the
arrays of the first machine, the values that they were made for, and their types and sizes. -/
structure Pairing where
  same : Ref → Ref → Prop
  own : Ref → Ref → Prop
  holds : Ref → Value → Prop
  shape : Ref → ValueType → Nat → Prop

namespace Pairing

structure Le (p q : Pairing) : Prop where
  same : ∀ r r', p.same r r' → q.same r r'
  own : ∀ r r', p.own r r' → q.own r r'
  holds : ∀ r v, p.holds r v → q.holds r v
  shape : ∀ r t n, p.shape r t n → q.shape r t n

theorem Le.refl (p : Pairing) : p.Le p := ⟨fun _ _ => id,fun _ _ => id,fun _ _ => id,fun _ _ _ => id⟩

theorem Le.trans {p q r : Pairing} (pq : p.Le q) (qr : q.Le r) : p.Le r :=
  ⟨fun a b h => qr.same a b (pq.same a b h),fun a b h => qr.own a b (pq.own a b h),
    fun a b h => qr.holds a b (pq.holds a b h),fun a b c h => qr.shape a b c (pq.shape a b c h)⟩

def add (p : Pairing) (r r' : Ref) (v : Value) (t : ValueType) (n : Nat) : Pairing where
  same q q' := p.same q q' ∨ q = r ∧ q' = r'
  own q q' := p.own q q' ∨ q = r ∧ q' = r'
  holds q w := p.holds q w ∨ q = r ∧ w = v
  shape q t' n' := p.shape q t' n' ∨ q = r ∧ t' = t ∧ n' = n

theorem leAdd (p : Pairing) (r r' : Ref) (v : Value) (t : ValueType) (n : Nat) : p.Le (p.add r r' v t n) :=
  ⟨fun _ _ => .inl,fun _ _ => .inl,fun _ _ => .inl,fun _ _ _ => .inl⟩

end Pairing

structure Agree (V : View) (p : Pairing) (s s' : Machine α) : Prop where
  valid : ∀ r r', p.same r r' → r < s.memory.size ∧ r' < s'.memory.size ∧ s.arrayAt r = s'.arrayAt r'
  owned : ∀ r r', p.own r r' → p.same r r' ∧ ∀ q q', p.same q q' → (q = r ↔ q' = r')
  shaped : ∀ r t n, p.shape r t n → r < s.memory.size ∧ (s.arrayAt r).type = t ∧ (s.arrayAt r).data.size = n
  held : ∀ r v, p.holds r v → (∀ w, p.holds r w → w = v) ∧ ∃ t n, p.shape r t n ∧ V.fits v t n
  env : ∀ v r, V.live v → s.env v = some r → (∃ t n, p.shape r t n ∧ V.fits v t n) ∧
    ∃ r', s'.env (V.rename v) = some r' ∧ p.same r r' ∧ (V.writable v → p.own r r')

namespace Agree

variable {V : View} {p : Pairing} {s s' : Machine α}

theorem write (agree : Agree V p s s') {r r'} (own : p.own r r') {a : NdArray α} (type : a.type = (s.arrayAt r).type)
    (size : a.data.size = (s.arrayAt r).data.size) :
    Agree V p (s.withArray r a) (s'.withArray r' a) := by
  obtain ⟨same,only⟩ := agree.owned r r' own
  obtain ⟨valid,valid',-⟩ := agree.valid r r' same
  refine ⟨fun q q' h => ?_,agree.owned,fun q t n shape => ?_,agree.held,agree.env⟩
  · obtain ⟨hq,hq',contents⟩ := agree.valid q q' h
    refine ⟨by simpa using hq,by simpa using hq',?_⟩
    rw [s.arrayAtWith a valid,s'.arrayAtWith a valid',contents]
    simp only [only q q' h]
  · obtain ⟨hq,ht,hn⟩ := agree.shaped q t n shape
    refine ⟨by simpa using hq,?_⟩
    rw [s.arrayAtWith a valid]
    by_cases here : q = r
    · subst here
      rw [if_pos rfl,type,size]
      exact ⟨ht,hn⟩
    · rw [if_neg here]
      exact ⟨ht,hn⟩

theorem push (agree : Agree V p s s') (a : NdArray α) {v} (fits : V.fits v a.type a.data.size) :
    Agree V (p.add s.memory.size s'.memory.size v a.type a.data.size) { s with memory := s.memory.push a }
      { s' with memory := s'.memory.push a } := by
  have old (m : Machine α) (q : Ref) : ({ m with memory := m.memory.push a } : Machine α).arrayAt q =
      if q = m.memory.size then a else m.arrayAt q := m.arrayAtFresh default a q
  have apart (q q' : Ref) (h : p.same q q') : q ≠ s.memory.size ∧ q' ≠ s'.memory.size :=
    ⟨Nat.ne_of_lt (agree.valid q q' h).1,Nat.ne_of_lt (agree.valid q q' h).2.1⟩
  have grown {q : Ref} (valid : q < s.memory.size) : q < (s.memory.push a).size := by
    simpa using Nat.lt_succ_of_lt valid
  refine ⟨?_,?_,?_,?_,fun v r live bound => ?_⟩
  · rintro q q' (h | ⟨rfl,rfl⟩)
    · obtain ⟨hq,hq',contents⟩ := agree.valid q q' h
      refine ⟨grown hq,by simpa using Nat.lt_succ_of_lt hq',?_⟩
      rw [old,old,if_neg (apart q q' h).1,if_neg (apart q q' h).2,contents]
    · exact ⟨by simp,by simp,by rw [old,old,if_pos rfl,if_pos rfl]⟩
  · rintro r r' (own | ⟨rfl,rfl⟩)
    · obtain ⟨same,only⟩ := agree.owned r r' own
      refine ⟨.inl same,?_⟩
      rintro q q' (h | ⟨rfl,rfl⟩)
      · exact only q q' h
      · exact ⟨fun eq => absurd eq.symm (apart r r' same).1,fun eq => absurd eq.symm (apart r r' same).2⟩
    · refine ⟨.inr ⟨rfl,rfl⟩,?_⟩
      rintro q q' (h | ⟨rfl,rfl⟩)
      · exact ⟨fun eq => absurd eq (apart q q' h).1,fun eq => absurd eq (apart q q' h).2⟩
      · exact ⟨fun _ => rfl,fun _ => rfl⟩
  · rintro q t n (h | ⟨rfl,rfl,rfl⟩)
    · obtain ⟨hq,shape⟩ := agree.shaped q t n h
      exact ⟨grown hq,by rw [old,if_neg (hq.ne)]; exact shape⟩
    · exact ⟨by simp,by rw [old,if_pos rfl]; exact ⟨rfl,rfl⟩⟩
  · rintro r w (h | ⟨rfl,rfl⟩)
    · obtain ⟨only,t,n,shape,fits⟩ := agree.held r w h
      have apart : r ≠ s.memory.size := Nat.ne_of_lt (agree.shaped r t n shape).1
      exact ⟨fun w' h' => h'.elim (only w') fun same => absurd same.1 apart,t,n,.inl shape,fits⟩
    · refine ⟨fun w' h' => h'.elim (fun h => ?_) And.right,_,_,.inr ⟨rfl,rfl,rfl⟩,fits⟩
      obtain ⟨-,t,n,shape,-⟩ := agree.held _ w' h
      exact absurd rfl (Nat.ne_of_lt (agree.shaped _ t n shape).1)
  · obtain ⟨⟨t,n,shape,fits⟩,r',bound',same,own⟩ := agree.env v r live bound
    exact ⟨⟨t,n,.inl shape,fits⟩,r',bound',.inl same,fun w => .inl (own w)⟩

theorem bound (agree : Agree V p s s') {v r r'} (same : p.same r r') (own : V.writable v → p.own r r')
    (holds : p.holds r v) (bindable : V.bindable v) : Agree V p (s.bound v r) (s'.bound v r') := by
  refine ⟨agree.valid,agree.owned,agree.shaped,agree.held,fun w q live found => ?_⟩
  by_cases here : w = v
  · subst here
    rw [boundEnv,if_pos rfl] at found
    cases found
    exact ⟨(agree.held r w holds).2,r',by rw [V.kept w bindable,boundEnv,if_pos rfl],same,own⟩
  · rw [boundEnv,if_neg here] at found
    obtain ⟨shape,q',found',rel⟩ := agree.env w q live found
    exact ⟨shape,q',by rw [boundEnv,if_neg fun eq => here (V.only v bindable w live eq),found'],rel⟩

end Agree

structure Passes (V : View) (p q : Pairing) (s t : Machine α) : Prop where
  le : p.Le q
  size : s.memory.size ≤ t.memory.size
  fresh : ∀ r r', q.own r r' → p.own r r' ∨ s.memory.size ≤ r
  made : ∀ r v, q.holds r v → p.holds r v ∨ s.memory.size ≤ r
  contents : ∀ r, r < s.memory.size → (∀ r', ¬ p.own r r') → t.arrayAt r = s.arrayAt r
  env : ∀ v, ¬ V.bindable v → t.env v = s.env v
  bound : ∀ v r, t.env v = some r → s.env v = some r ∨ q.holds r v

namespace Passes

variable {V : View} {p q u : Pairing} {s t w : Machine α}

theorem refl (p : Pairing) (s : Machine α) : Passes V p p s s :=
  ⟨.refl p,le_rfl,fun _ _ => .inl,fun _ _ => .inl,fun _ _ _ => rfl,fun _ _ => rfl,fun _ _ => .inl⟩

theorem trans (first : Passes V p q s t) (second : Passes V q u t w) : Passes V p u s w := by
  refine ⟨first.le.trans second.le,first.size.trans second.size,fun r r' own => ?_,fun r v holds => ?_,
    fun r valid free => ?_,fun v other => (second.env v other).trans (first.env v other),fun v r found => ?_⟩
  · exact (second.fresh r r' own).elim (first.fresh r r') fun new => .inr (first.size.trans new)
  · exact (second.made r v holds).elim (first.made r v) fun new => .inr (first.size.trans new)
  · refine (second.contents r (valid.trans_le first.size) fun r' own => ?_).trans (first.contents r valid free)
    exact (first.fresh r r' own).elim (free r') (Nat.not_le_of_lt valid)
  · rcases second.bound v r found with old | new
    · exact (first.bound v r old).imp_right (second.le.holds r v)
    · exact .inr new

theorem write {r r'} (own : p.own r r') (a : NdArray α) (valid : r < s.memory.size) :
    Passes V p p s (s.withArray r a) := by
  refine ⟨.refl p,by simp,fun _ _ => .inl,fun _ _ => .inl,fun q _ free => ?_,fun _ _ => rfl,fun _ _ => .inl⟩
  have other : q ≠ r := fun eq => free r' (eq ▸ own)
  rw [s.withArrayOther a valid other]

theorem push (a : NdArray α) (r' : Ref) (v : Value) (t : ValueType) (n : Nat) :
    Passes V p (p.add s.memory.size r' v t n) s { s with memory := s.memory.push a } := by
  have old (r : Ref) (valid : r < s.memory.size) :
      ({ s with memory := s.memory.push a } : Machine α).arrayAt r = s.arrayAt r :=
    (s.arrayAtFresh default a r).trans (if_neg (valid.ne))
  refine ⟨p.leAdd ..,by simp,?_,?_,fun r valid _ => old r valid,fun _ _ => rfl,fun _ _ => .inl⟩
  · rintro r r' (own | ⟨rfl,rfl⟩)
    · exact .inl own
    · exact .inr (le_rfl)
  · rintro r w (holds | ⟨rfl,rfl⟩)
    · exact .inl holds
    · exact .inr (le_rfl)

theorem bind {v r} (holds : p.holds r v) (bindable : V.bindable v) : Passes V p p s (s.bound v r) := by
  refine ⟨.refl p,le_rfl,fun _ _ => .inl,fun _ _ => .inl,fun _ _ _ => rfl,fun w other => ?_,fun w q found => ?_⟩
  · have apart : w ≠ v := fun eq => other (eq ▸ bindable)
    rw [boundEnv,if_neg apart]
  · rw [boundEnv] at found
    by_cases here : w = v
    · rw [if_pos here] at found
      cases found
      exact .inr (here ▸ holds)
    · rw [if_neg here] at found
      exact .inl found

end Passes

def Tracks (V : View) (p : Pairing) (R : Pairing → β → γ → Prop) (m : Exec α β) (m' : Exec α γ) : Prop :=
  ∀ q, p.Le q → ∀ s s', Agree V q s s' → ∀ b t, m s = .ok b t →
    ∃ u c t', m' s' = .ok c t' ∧ Agree V u t t' ∧ Passes V q u s t ∧ R u b c

namespace Tracks

variable {V : View} {p : Pairing} {R : Pairing → β → γ → Prop} {S : Pairing → δ → ε → Prop}

theorem mono {q : Pairing} {m : Exec α β} {m' : Exec α γ} (tracks : Tracks V p R m m') (le : p.Le q) :
    Tracks V q R m m' := fun u lu => tracks u (le.trans lu)

theorem bind {m : Exec α β} {m' : Exec α γ} {f : β → Exec α δ} {f' : γ → Exec α ε} (first : Tracks V p R m m')
    (rest : ∀ q, p.Le q → ∀ b c, R q b c → Tracks V q S (f b) (f' c)) : Tracks V p S (m >>= f) (m' >>= f') := by
  intro q le s s' agree d t ok
  obtain ⟨b,u,ran,last⟩ := Step.bindOk.mp ok
  obtain ⟨q1,c,u',ran',agree1,passes1,rel⟩ := first q le s s' agree b u ran
  obtain ⟨q2,e,t',last',agree2,passes2,rel2⟩ :=
    rest q1 (le.trans passes1.le) b c rel q1 (.refl q1) u u' agree1 d t last
  exact ⟨q2,e,t',by rw [Step.bindOfOk ran',last'],agree2,passes1.trans passes2,rel2⟩

theorem pure {b c} (rel : ∀ q, p.Le q → R q b c) :
    Tracks V p R (Pure.pure b : Exec α β) (Pure.pure c : Exec α γ) := by
  intro q le s s' agree _ _ ok
  cases ok
  exact ⟨q,c,s',rfl,agree,.refl q s,rel q le⟩

theorem lift {o o'} (rel : ∀ b, o = .ok b → ∃ c, o' = .ok c ∧ ∀ q, p.Le q → R q b c) :
    Tracks V p R (lift o : Exec α β) (lift o' : Exec α γ) := by
  intro q le s s' agree b t ok
  obtain ⟨got,rfl⟩ := liftOk.mp ok
  obtain ⟨c,got',rel⟩ := rel b got
  exact ⟨q,c,s',liftOk.mpr ⟨got',rfl⟩,agree,.refl q s,rel q le⟩

theorem lifted (o : Outcome β) : Tracks V p (fun _ x y => x = y ∧ o = .ok x) (Eval.lift o : Exec α β) (Eval.lift o) :=
  lift fun b ok => ⟨b,ok,fun _ _ => ⟨rfl,ok⟩⟩

theorem liftSame (o : Outcome β) : Tracks V p (fun _ x y => x = y) (Eval.lift o : Exec α β) (Eval.lift o) :=
  lift fun b ok => ⟨b,ok,fun _ _ => rfl⟩

theorem fails {m : Exec α β} {m' : Exec α γ} (never : ∀ s b t, m s ≠ .ok b t) : Tracks V p R m m' :=
  fun _ _ s _ _ b t ok => absurd ok (never s b t)

theorem choice {c : Prop} [Decidable c] {m n : Exec α β} {m' n' : Exec α γ} (yes : c → Tracks V p R m m')
    (no : ¬ c → Tracks V p R n n') : Tracks V p R (if c then m else n) (if c then m' else n') := by
  by_cases h : c
  · rw [if_pos h,if_pos h]
    exact yes h
  · rw [if_neg h,if_neg h]
    exact no h

theorem array {r r'} (same : p.same r r') :
    Tracks V p (fun q (a a' : NdArray α) => a = a' ∧ ∀ t n, q.shape r t n → a.type = t ∧ a.data.size = n)
      (array r) (array r') := by
  intro q le s s' agree _ _ ok
  cases ok
  exact ⟨q,s'.arrayAt r',s',rfl,agree,.refl q s,(agree.valid r r' (le.same r r' same)).2.2,
    fun t n shape => (agree.shaped r t n shape).2⟩

theorem load {r r' : Ref} (same : p.same r r') (idx : List Int64) :
    Tracks V p (fun _ (x x' : α) => x = x') (load r idx) (load r' idx) :=
  (array same).bind fun _ _ _ _ ⟨eq,_⟩ => lift fun x got => ⟨x,eq ▸ got,fun _ _ => rfl⟩

theorem firstOf {r r' : Ref} (same : p.same r r') :
    Tracks V p (fun _ (x x' : α) => x = x') (firstOf r) (firstOf r') :=
  (array same).bind fun _ _ _ _ ⟨eq,_⟩ => lift fun x ok => ⟨x,eq ▸ ok,fun _ _ => rfl⟩

theorem value {g g' v} (live : V.live v) :
    Tracks V p (fun q r r' => q.same r r' ∧ (V.writable v → q.own r r') ∧ ∃ t n, q.shape r t n ∧ V.fits v t n)
      (value g (some v) : Exec α Ref) (value g' (some (V.rename v))) := by
  intro q le s s' agree r t ok
  obtain ⟨⟨_,same,bound⟩,rfl⟩ := valueOk.mp ok
  cases same
  obtain ⟨shape,r',bound',paired,own⟩ := agree.env v r live bound
  exact ⟨q,r',s',valueRun bound',agree,.refl q s,paired,own,shape⟩

def Done (_ : Pairing) (_ _ : Unit) : Prop := True

theorem store {r r'} (own : p.own r r') (idx : List Int64) (x : α) :
    Tracks V p Done (store r idx x) (store r' idx x) := by
  intro q le s s' agree _ t ok
  obtain ⟨i,place,rfl⟩ := storeOk.mp ok
  have own := le.own r r' own
  obtain ⟨valid,-,contents⟩ := agree.valid r r' (agree.owned r r' own).1
  refine ⟨q,(),_,storeOk.mpr ⟨i,contents ▸ place,rfl⟩,?_,.write own _ valid,trivial⟩
  rw [← contents]
  exact agree.write own rfl (by simp)

/- Writing all the data of an array keeps its shape only if there is as much of it as there was. -/
theorem overwrite {r r'} (own : p.own r r') (f : NdArray α → Array α) (size : ∀ a, (f a).size = a.data.size) :
    Tracks V p Done (do Eval.overwrite r (f (← Eval.array r))) (do Eval.overwrite r' (f (← Eval.array r'))) := by
  intro q le s s' agree _ t ok
  have own := le.own r r' own
  obtain ⟨valid,-,contents⟩ := agree.valid r r' (agree.owned r r' own).1
  have write (m : Machine α) (r : Ref) : (do Eval.overwrite r (f (← Eval.array r)) : Exec α Unit) m =
      .ok () (m.withArray r { m.arrayAt r with data := f (m.arrayAt r) }) := overwriteRun m r _
  rw [write] at ok
  cases ok
  refine ⟨q,(),_,write s' r',?_,.write own _ valid,trivial⟩
  rw [← contents]
  exact agree.write own rfl (size _)

theorem copyData {r r' q q'} (same : p.same r r') (own : p.own q q') :
    Tracks V p Done (copyData r q : Exec α Unit) (copyData r' q') := by
  intro u le s s' agree _ t ok
  have own := le.own q q' own
  obtain ⟨-,-,source⟩ := agree.valid r r' (le.same r r' same)
  obtain ⟨valid,-,contents⟩ := agree.valid q q' (agree.owned q q' own).1
  obtain ⟨sizes,rfl⟩ := copyDataOk.mp ok
  refine ⟨u,(),_,copyDataOk.mpr ⟨source ▸ contents ▸ sizes,rfl⟩,?_,.write own _ valid,trivial⟩
  rw [← source,← contents]
  exact agree.write own rfl sizes

theorem allocate (a : NdArray α) {v} (fits : V.fits v a.type a.data.size) :
    Tracks V p (fun q r r' => q.own r r' ∧ q.same r r' ∧ q.holds r v) (allocate a) (allocate a) := by
  intro q le s s' agree _ _ ok
  cases ok
  exact ⟨_,_,_,rfl,agree.push a fits,.push a _ v _ _,.inr ⟨rfl,rfl⟩,.inr ⟨rfl,rfl⟩,.inr ⟨rfl,rfl⟩⟩

theorem bindValue {v r r'} (same : p.same r r') (own : V.writable v → p.own r r') (holds : p.holds r v)
    (bindable : V.bindable v) :
    Tracks V p Done (Eval.bind v r : Exec α Unit) (Eval.bind v r') := by
  intro q le s s' agree _ _ ok
  cases ok
  have holds := le.holds r v holds
  exact ⟨q,(),_,rfl,agree.bound (le.same r r' same) (fun w => le.own r r' (own w)) holds bindable,
    .bind holds bindable,trivial⟩

theorem foldFrom {f f' : β → Int64 → Exec α β} (each : ∀ b i, Tracks V p (fun _ x y => x = y) (f b i) (f' b i))
    (n : Nat) (i : Int64) (b : β) : Tracks V p (fun _ x y => x = y) (Box.foldFrom f n i b) (Box.foldFrom f' n i b) := by
  induction n generalizing i b with
  | zero => exact pure fun _ _ => rfl
  | succ n ih =>
    refine (each b i).bind fun q le c c' eq => ?_
    subst eq
    exact (ih (i + 1) c).mono le

theorem each {dims : List Int64} {f f' : List Int64 → Exec α Unit} (each : ∀ idx, Tracks V p Done (f idx) (f' idx)) :
    Tracks V p Done (Box.each dims f) (Box.each dims f') := by
  rw [Box.eachIndices,Box.eachIndices]
  induction Box.indices dims with
  | nil => exact pure fun _ _ => trivial
  | cons idx later ih => exact (each idx).bind fun q le _ _ _ => ih.mono le

end Tracks

end TileLower.Eval

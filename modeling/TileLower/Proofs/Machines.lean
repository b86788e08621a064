import TileLower.Proofs.Arrays
import TileLower.Eval.Run

/-! What the steps of a machine do to its state, one equation for each step. -/
namespace TileLower.Eval

open Box (Inside)

variable {α : Type}

namespace Machine

def arrayAt (s : Machine α) (r : Ref) : NdArray α := s.memory.getD r default

def withArray (s : Machine α) (r : Ref) (a : NdArray α) : Machine α :=
  { s with memory := s.memory.setIfInBounds r a }

def bound (s : Machine α) (v : Value) (r : Ref) : Machine α :=
  { s with env := fun w => if w = v then some r else s.env w }

def bindFresh (s : Machine α) (v : Value) (a : NdArray α) : Machine α :=
  ⟨s.memory.push a,fun w => if w = v then some s.memory.size else s.env w⟩

@[simp] theorem withArrayEnv (s : Machine α) (r : Ref) (a : NdArray α) : (s.withArray r a).env = s.env := rfl

@[simp] theorem withArraySize (s : Machine α) (r : Ref) (a : NdArray α) :
    (s.withArray r a).memory.size = s.memory.size := by simp [withArray]

theorem arrayAtWith (s : Machine α) {r} (a : NdArray α) (valid : r < s.memory.size) (q : Ref) :
    (s.withArray r a).arrayAt q = if q = r then a else s.arrayAt q := by
  simp only [arrayAt,withArray,Array.getD_eq_getD_getElem?,Array.getElem?_setIfInBounds]
  by_cases same : r = q
  · subst same
    simp [valid]
  · simp [same,Ne.symm same]

theorem withArrayHere (s : Machine α) {r} (a : NdArray α) (valid : r < s.memory.size) :
    (s.withArray r a).arrayAt r = a := by rw [s.arrayAtWith a valid,if_pos rfl]

theorem withArrayOther (s : Machine α) {r q} (a : NdArray α) (valid : r < s.memory.size) (apart : q ≠ r) :
    (s.withArray r a).arrayAt q = s.arrayAt q := by rw [s.arrayAtWith a valid,if_neg apart]

@[simp] theorem withArrayTwice (s : Machine α) (r : Ref) (a b : NdArray α) :
    (s.withArray r a).withArray r b = s.withArray r b := by
  simp [withArray]

theorem withArraySelf (s : Machine α) (r : Ref) : s.withArray r (s.arrayAt r) = s := by
  cases s with
  | mk memory env =>
    simp only [withArray,arrayAt]
    congr 1
    apply Array.ext (by simp)
    intro i h1 h2
    simp only [Array.getElem_setIfInBounds h2]
    split
    · rename_i same
      subst same
      simp [Array.getD,h2]
    · rfl

theorem modifyArray (s : Machine α) (r : Ref) (f : NdArray α → NdArray α) :
    { s with memory := s.memory.modify r f } = s.withArray r (f (s.arrayAt r)) := by
  simp only [withArray]
  congr 1
  apply Array.ext (by simp)
  intro i h1 h2
  have valid : i < s.memory.size := by simpa using h2
  rw [Array.getElem_modify,Array.getElem_setIfInBounds valid]
  split
  · rename_i same
    subst same
    simp [arrayAt,Array.getD,valid]
  · rfl

@[simp] theorem boundEnv (s : Machine α) (v w : Value) (r : Ref) :
    (s.bound v r).env w = if w = v then some r else s.env w := rfl

@[simp] theorem bindFreshSize (s : Machine α) (v : Value) (a : NdArray α) :
    (s.bindFresh v a).memory.size = s.memory.size + 1 := by simp [bindFresh]

@[simp] theorem bindFreshEnv (s : Machine α) (v w : Value) (a : NdArray α) :
    (s.bindFresh v a).env w = if w = v then some s.memory.size else s.env w := rfl

theorem arrayAtFresh (s : Machine α) (v : Value) (a : NdArray α) (r : Ref) :
    (s.bindFresh v a).arrayAt r = if r = s.memory.size then a else s.arrayAt r := by
  simp only [arrayAt,bindFresh,Array.getD_eq_getD_getElem?,Array.getElem?_push]
  split <;> simp_all

theorem arrayAtNew (s : Machine α) {v : Value} {a : NdArray α} : (s.bindFresh v a).arrayAt s.memory.size = a := by
  rw [arrayAtFresh,if_pos rfl]

theorem arrayAtOld (s : Machine α) {v : Value} {a : NdArray α} {r} (within : r < s.memory.size) :
    (s.bindFresh v a).arrayAt r = s.arrayAt r := by
  rw [arrayAtFresh,if_neg (within.ne)]

@[simp] theorem withArrayFresh (s : Machine α) (v : Value) (a b : NdArray α) :
    (s.bindFresh v a).withArray s.memory.size b = s.bindFresh v b := by
  simp only [withArray,bindFresh]
  congr 1
  apply Array.ext (by simp)
  intro i h1 h2
  rw [Array.getElem_setIfInBounds (by simpa using h2)]
  simp only [Array.getElem_push]
  split
  · rename_i same
    subst same
    simp
  · have : i < s.memory.size := by simp at h2; omega
    simp [this]

def delivered (s : Machine α) (g : Graph) (id : OpId) (v : Value) (r : Ref) (a : NdArray α) : Machine α :=
  if (g.typeOf v).isTensor then s.bindFresh (.result id 0) a else s.withArray r a

def holder (g : Graph) (id : OpId) (v : Value) : Value := if (g.typeOf v).isTensor then .result id 0 else v

theorem deliveredHolds {s : Machine α} {v r} (g : Graph) (id : OpId) (a : NdArray α) (bound : s.env v = some r)
    (valid : r < s.memory.size) :
    ∃ q, (s.delivered g id v r a).env (holder g id v) = some q ∧ (s.delivered g id v r a).arrayAt q = a ∧
      q < (s.delivered g id v r a).memory.size ∧ ∀ p < s.memory.size, p ≠ r → q ≠ p := by
  unfold delivered holder
  split
  · exact ⟨s.memory.size,by simp,s.arrayAtNew,by simp,fun p hp _ => Nat.ne_of_gt hp⟩
  · exact ⟨r,bound,s.withArrayHere a valid,by simpa using valid,fun p _ other => other.symm⟩

theorem deliveredOther {s : Machine α} {id w r p} (g : Graph) (v : Value) (a : NdArray α) (valid : r < s.memory.size)
    (within : p < s.memory.size) (apart : p ≠ r) (other : w ≠ .result id 0) :
    (s.delivered g id v r a).env w = s.env w ∧ (s.delivered g id v r a).arrayAt p = s.arrayAt p ∧
      p < (s.delivered g id v r a).memory.size := by
  unfold delivered
  split
  · exact ⟨by simp [other],s.arrayAtOld within,by simpa using Nat.lt_succ_of_lt within⟩
  · exact ⟨rfl,s.withArrayOther a valid apart,by simpa using within⟩

end Machine

@[simp] theorem arrayRun (r : Ref) (s : Machine α) : array r s = .ok (s.arrayAt r) s := rfl

@[simp] theorem allocateRun (a : NdArray α) (s : Machine α) :
    allocate a s = .ok s.memory.size { s with memory := s.memory.push a } := rfl

@[simp] theorem bindRun (v : Value) (r : Ref) (s : Machine α) : bind v r s = .ok () (s.bound v r) := rfl

@[simp] theorem bindNewRun (v : Value) (a : NdArray α) (s : Machine α) :
    bindNew v a s = .ok () (s.bindFresh v a) := rfl

theorem valueRun {g v} {s : Machine α} {r} (bound : s.env v = some r) : value g (some v) s = .ok r s := by
  simp [value,bound,Step.bindOfOk (x := (get : Exec α (Machine α))) (s := s) (b := s) (u := s) rfl,pure,EStateM.pure]

theorem valueOk {g v} {s t : Machine α} {r} :
    value g v s = .ok r t ↔ (∃ w, v = some w ∧ s.env w = some r) ∧ s = t := by
  simp only [value,Bind.bind,EStateM.bind,get,getThe,MonadStateOf.get,EStateM.get]
  cases v with
  | none => simp
  | some w => cases bound : s.env w with
    | none => simp [bound]
    | some q => simp [bound]

theorem loadRun [Scalar α] {s : Machine α} {r ns is} (full : (s.arrayAt r).Full ns) (inside : Inside is ns) :
    load r (words is) s = .ok ((s.arrayAt r).cell ns is) s := by
  have run : load r (words is) s = (lift ((s.arrayAt r).get (words is)) : Exec α α) s := rfl
  rw [run,full.get inside]
  rfl

theorem storeOk {s t : Machine α} {r idx x} :
    store r idx x s = .ok () t ↔ ∃ i, (do (s.arrayAt r).place (← (s.arrayAt r).offset idx)) = .ok i ∧
      t = s.withArray r { s.arrayAt r with data := (s.arrayAt r).data.setIfInBounds i x } := by
  have run : store r idx x s = ((lift (do (s.arrayAt r).place (← (s.arrayAt r).offset idx)) : Exec α Nat) >>= fun i =>
      modify fun m => { m with memory := m.memory.modify r fun a =>
        { a with data := a.data.setIfInBounds i x } }) s := rfl
  have write (i : Nat) : (modify fun m => { m with memory := m.memory.modify r fun a =>
      { a with data := a.data.setIfInBounds i x } } : Exec α Unit) s =
      .ok () (s.withArray r { s.arrayAt r with data := (s.arrayAt r).data.setIfInBounds i x }) :=
    congrArg (EStateM.Result.ok ()) (s.modifyArray r _)
  rw [run,Step.bindOk]
  constructor
  · rintro ⟨i,_,found,ok⟩
    obtain ⟨place,rfl⟩ := liftOk.mp found
    cases (write i).symm.trans ok
    exact ⟨i,place,rfl⟩
  · rintro ⟨i,place,rfl⟩
    exact ⟨i,s,liftOk.mpr ⟨place,rfl⟩,write i⟩

theorem storeRun {s : Machine α} {r ns is} (full : (s.arrayAt r).Full ns) (inside : Inside is ns) (x : α) :
    store r (words is) x s = .ok () (s.withArray r ((s.arrayAt r).put ns is x)) := by
  refine storeOk.mpr ⟨NdArray.position ns is,?_,rfl⟩
  rw [full.offset inside,Outcome.bindOfOk,full.place inside]

theorem storeWith {s : Machine α} {r ns is} {a : NdArray α} (valid : r < s.memory.size) (full : a.Full ns)
    (inside : Inside is ns) (x : α) :
    store r (words is) x (s.withArray r a) = .ok () (s.withArray r (a.put ns is x)) := by
  have here := s.withArrayHere a valid
  rw [storeRun (here.symm ▸ full) inside,here,s.withArrayTwice]

theorem overwriteRun (s : Machine α) (r : Ref) (data : Array α) :
    overwrite r data s = .ok () (s.withArray r { s.arrayAt r with data }) := by
  exact congrArg (EStateM.Result.ok ()) (s.modifyArray r _)

theorem copyDataOk {s t : Machine α} {r q} :
    copyData r q s = .ok () t ↔ (s.arrayAt r).data.size = (s.arrayAt q).data.size ∧
      t = s.withArray q { s.arrayAt q with data := (s.arrayAt r).data } := by
  have run : copyData r q s = (if (s.arrayAt r).data.size ≠ (s.arrayAt q).data.size then
      (do fail ("cannot copy " ++ (s.arrayAt r).type.render ++ " into " ++ (s.arrayAt q).type.render)
          overwrite q (s.arrayAt r).data : Exec α Unit)
      else overwrite q (s.arrayAt r).data) s := rfl
  rw [run]
  by_cases sizes : (s.arrayAt r).data.size = (s.arrayAt q).data.size
  · rw [if_neg (not_not_intro sizes),overwriteRun]
    constructor
    · intro ok
      cases ok
      exact ⟨sizes,rfl⟩
    · rintro ⟨-,rfl⟩
      rfl
  · rw [if_pos sizes]
    constructor
    · intro ok
      obtain ⟨_,_,failed,_⟩ := Step.bindOk.mp ok
      exact absurd failed failOk
    · rintro ⟨same,-⟩
      exact absurd same sizes

theorem outputTensor {g : Graph} {id v} {s : Machine α} {r i} (tensor : (g.typeOf v).isTensor = true)
    (bound : s.env v = some r) (within : i < (g.op id).results.length) (few : (g.op id).results.length < wordBound) :
    output g id (some v) (Int64.ofNat i) s = .ok s.memory.size (s.bindFresh (.result id i) (s.arrayAt r)) := by
  have small : i < wordBound := within.trans few
  rw [output,Step.bindOfOk (valueRun bound)]
  simp only [tensor,if_true,Word.ofNatLtIff small few,within,if_neg (Word.notNegative small),Word.toNatOfNat small]
  rfl

theorem outputPlace {g : Graph} {id v} {s : Machine α} {r i} (place : (g.typeOf v).isTensor = false)
    (bound : s.env v = some r) : output g id (some v) i s = .ok r s := by
  rw [output,Step.bindOfOk (valueRun bound)]
  simp only [place,Bool.false_eq_true,if_false]
  rfl

theorem outputDelivers {g : Graph} {id v} {s : Machine α} {r q}
    (result : (g.typeOf v).isTensor = true → 0 < (g.op id).results.length ∧ (g.op id).results.length < wordBound)
    (bound : s.env v = some r) (valid : q < s.memory.size) (apart : (g.typeOf v).isTensor = false → q ≠ r) :
    ∃ p t, output g id (some v) 0 s = .ok p t ∧ t.arrayAt q = s.arrayAt q ∧ t.arrayAt p = s.arrayAt r ∧ q ≠ p ∧
      ∀ a, t.withArray p a = s.delivered g id v r a := by
  cases tensor : (g.typeOf v).isTensor with
  | true =>
    obtain ⟨within,few⟩ := result tensor
    have out : output g id (some v) 0 s = .ok s.memory.size (s.bindFresh (.result id 0) (s.arrayAt r)) :=
      outputTensor (i := 0) tensor bound within few
    refine ⟨_,_,out,?_,?_,valid.ne,fun a => ?_⟩
    · rw [s.arrayAtOld valid]
    · rw [s.arrayAtNew]
    · rw [s.withArrayFresh,Machine.delivered,if_pos tensor]
  | false =>
    refine ⟨r,s,outputPlace tensor bound,rfl,rfl,apart tensor,fun a => ?_⟩
    simp [Machine.delivered,tensor]

theorem operandRun {g : Graph} {id i v} (found : (g.op id).operands[i]? = some v) (s : Machine α) :
    operand g id i s = .ok v s := by
  simp [operand,Graph.operandAt,found,Outcome.ofOption,lift,pure,EStateM.pure]

theorem bindArgumentsCons {g i} {slot : Slot} {ss r rs} {s : Machine α} (type : (s.arrayAt r).type = slot.type) :
    bindArguments g i (slot :: ss) (r :: rs) s = bindArguments g (i + 1) ss rs
      (if slot.type.isTensor then s.bindFresh (.argument Graph.body i) (s.arrayAt r)
        else s.bound (.argument Graph.body i) r) := by
  rw [bindArguments,Step.bindOfOk (arrayRun r s),if_neg (not_not.mpr type)]
  split <;> rfl

theorem locatedOk {β : Type} {g : Graph} {id : OpId} {m : Exec α β} {s t : Machine α} {b : β} :
    located g id m s = .ok b t ↔ m s = .ok b t := by
  unfold located
  split
  · rename_i failed
    simp [failed]
  · rfl

theorem fullValid {s : Machine α} {r ns} (full : (s.arrayAt r).Full ns) : r < s.memory.size := by
  by_contra outside
  have none : s.arrayAt r = default := by simp [Machine.arrayAt,Array.getD,outside]
  have dims : [] = words ns := by rw [← full.dims,none]; rfl
  have size : 0 = ns.prod := by rw [← full.size,none]; rfl
  cases ns with
  | nil => simp at size
  | cons => simp at dims

/- A loop on a machine against steps on something that the machine shows: if each step can be followed, in one
direction or the other, so can the loop. -/
section Followed

variable {β ι : Type} {is : List ι} {f : ι → Exec α Unit} (step : β → ι → Outcome β) (Shows : β → Machine α → Prop) {b : β}
  {s : Machine α}

theorem alongFollowed
    (one : ∀ i ∈ is, ∀ b s t, Shows b s → f i s = .ok () t → ∃ c, step b i = .ok c ∧ Shows c t) {t}
    (shows_ : Shows b s) (ok : Box.along is f s = .ok () t) :
    ∃ c, is.foldlM step b = .ok c ∧ Shows c t := by
  induction is generalizing b s with
  | nil =>
    cases ok
    exact ⟨b,rfl,shows_⟩
  | cons i is ih =>
    obtain ⟨_,u,first,last⟩ := Step.bindOk.mp ok
    obtain ⟨c,stepped,showsC⟩ := one i (.head _) b s u shows_ first
    obtain ⟨e,ends,showsE⟩ := ih (fun i hi => one i (.tail _ hi)) showsC last
    exact ⟨e,by rw [List.foldlM_cons,stepped]; exact ends,showsE⟩

theorem alongFollows
    (one : ∀ i ∈ is, ∀ b c s, Shows b s → step b i = .ok c → ∃ t, f i s = .ok () t ∧ Shows c t) {c}
    (shows_ : Shows b s) (ok : is.foldlM step b = .ok c) :
    ∃ t, Box.along is f s = .ok () t ∧ Shows c t := by
  induction is generalizing b s with
  | nil =>
    cases ok
    exact ⟨s,rfl,shows_⟩
  | cons i is ih =>
    rw [List.foldlM_cons] at ok
    obtain ⟨e,first,last⟩ := Outcome.bindOk.mp ok
    obtain ⟨u,ran,showsE⟩ := one i (.head _) b e s shows_ first
    obtain ⟨t,ends,showsC⟩ := ih (fun i hi => one i (.tail _ hi)) showsE last
    exact ⟨t,by rw [Box.along,Step.bindOfOk ran,ends],showsC⟩

end Followed

theorem alongRun {β ι} (is : List ι) (f : ι → Exec α Unit) (put : β → Machine α) (step : β → ι → β) (Inv : β → Prop)
    (one : ∀ i ∈ is, ∀ b, Inv b → f i (put b) = .ok () (put (step b i)) ∧ Inv (step b i)) {b} (inv : Inv b) :
    Box.along is f (put b) = .ok () (put (is.foldl step b)) := by
  induction is generalizing b with
  | nil => rfl
  | cons i is ih =>
    obtain ⟨first,kept⟩ := one i (.head _) b inv
    rw [Box.along,Step.bindOfOk first]
    exact ih (fun i hi => one i (.tail _ hi)) kept

end TileLower.Eval

import Mathlib
import TileLower.OrderedMap

/-!
Ordered maps over whole histories. What a map holds is told from the changes made to it, and the list of keys and the
table are kept in step. Main statement: `OrderedMap.mapsKeepOrder`.
-/
namespace TileLower

open List

variable {κ β : Type} [DecidableEq κ]

namespace Table

variable {t : Table κ β}

def keys (t : Table κ β) : List κ := t.cells.map Prod.fst

theorem containsKeys {k} : t.contains k = true ↔ k ∈ t.keys := by
  rw [contains,find?,lookup_isSome_iff,keys,mem_map]
  simp only [beq_iff_eq,eq_comm (a := k)]

theorem findErase (k k' : κ) : (t.erase k).find? k' = if k' = k then none else t.find? k' := by
  simp only [find?,erase]
  induction t.cells with
  | nil => simp
  | cons c cells ih =>
    by_cases here : c.1 = k
    · rw [filter_cons_of_neg (by simp [here]),ih,lookup_cons]
      by_cases same : k' = k
      · rw [if_pos same,if_pos same]
      · rw [if_neg same,if_neg same,beq_false_of_ne (here ▸ same)]
    · rw [filter_cons_of_pos (by simp [here]),lookup_cons,lookup_cons,ih]
      by_cases same : k' = c.1
      · have other : k' ≠ k := fun same' => here (same.symm.trans same')
        rw [if_neg other,if_neg other]
      · rw [beq_false_of_ne same]

theorem findInsert (k k' : κ) (v : β) : (t.insert k v).find? k' = if k' = k then some v else t.find? k' := by
  rw [find?,insert,lookup_cons]
  by_cases same : k' = k
  · rw [if_pos same,beq_iff_eq.mpr same]
  · have left := findErase (t := t) k k'
    rw [if_neg same] at left ⊢
    rw [beq_false_of_ne same]
    exact left

end Table

namespace OrderedMap

variable {m : OrderedMap κ β}

theorem loadStore (m : OrderedMap κ β) (k k' : κ) (v : β) :
    (m.store k v).load? k' = if k' = k then some v else m.load? k' := Table.findInsert k k' v

theorem loadEmpty (k : κ) : (empty : OrderedMap κ β).load? k = none := rfl

/-- The keys are listed once each, and they are those of the table. -/
structure InStep (m : OrderedMap κ β) : Prop where
  distinct : m.keys.Nodup
  present : ∀ k, k ∈ m.keys ↔ k ∈ m.table.keys

theorem InStep.contains (inStep : m.InStep) {k} : k ∈ m.keys ↔ m.table.contains k = true :=
  (inStep.present k).trans Table.containsKeys.symm

theorem InStep.absent (inStep : m.InStep) {k} (absent : k ∉ m.keys) : m.load? k = none :=
  Option.not_isSome_iff_eq_none.mp fun found => absent (inStep.contains.mpr found)

theorem inStepOf (distinct : m.keys.Nodup) (present : ∀ k, k ∈ m.keys ↔ (m.load? k).isSome = true) : m.InStep :=
  ⟨distinct,fun k => (present k).trans Table.containsKeys⟩

omit [DecidableEq κ] in
theorem inStepEmpty : (empty : OrderedMap κ β).InStep := ⟨nodup_nil,fun _ => Iff.rfl⟩

theorem InStep.keysStore (inStep : m.InStep) (k : κ) (v : β) :
    (m.store k v).keys = if k ∈ m.keys then m.keys else m.keys ++ [k] := by
  simp only [store,inStep.contains]

theorem InStep.store (inStep : m.InStep) (k : κ) (v : β) : (m.store k v).InStep := by
  have keys := inStep.keysStore k v
  have present (a : κ) : ((m.store k v).load? a).isSome = true ↔ a = k ∨ a ∈ m.keys := by
    rw [loadStore,inStep.contains]
    split
    · rename_i same
      simp [same]
    · rename_i other
      simp only [other,false_or]
      rfl
  by_cases known : k ∈ m.keys
  · rw [if_pos known] at keys
    refine inStepOf (keys ▸ inStep.distinct) fun a => ?_
    rw [present,keys]
    exact ⟨.inr,fun either => either.elim (fun same => same ▸ known) id⟩
  · rw [if_neg known] at keys
    refine inStepOf ?_ fun a => ?_
    · rw [keys,← concat_eq_append]
      exact inStep.distinct.concat known
    · rw [present,keys,mem_append,mem_singleton,or_comm]

theorem InStep.keysDelete (inStep : m.InStep) (k : κ) : (m.delete k).keys = m.keys.erase k := by
  rw [delete]
  split
  · rfl
  · rename_i absent
    rw [erase_of_not_mem fun mem => absent (inStep.contains.mp mem)]

theorem loadDelete (m : OrderedMap κ β) (k k' : κ) :
    (m.delete k).load? k' = if k' = k then none else m.load? k' := by
  rw [delete]
  split
  · exact Table.findErase k k'
  · rename_i absent
    split
    · rename_i same
      exact same ▸ Option.not_isSome_iff_eq_none.mp absent
    · rfl

theorem InStep.delete (inStep : m.InStep) (k : κ) : (m.delete k).InStep := by
  have keys := inStep.keysDelete k
  refine inStepOf (keys ▸ inStep.distinct.erase k) fun a => ?_
  rw [keys,inStep.distinct.mem_erase_iff,loadDelete,inStep.contains]
  split
  · rename_i same
    simp [same]
  · rename_i other
    simp only [ne_eq,other,not_false_eq_true,true_and]
    rfl

omit [DecidableEq κ] in
theorem InStep.size (inStep : m.InStep) : m.size = m.table.size := by
  have perm := (perm_ext_iff_of_nodup inStep.distinct m.table.distinct).mpr inStep.present
  exact perm.length_eq.trans (length_map ..)

theorem InStep.loaded (inStep : m.InStep) [Inhabited β] {k} (mem : k ∈ m.keys) :
    some ((m.table.find? k).getD default) = m.load? k := by
  obtain ⟨v,found⟩ := Option.isSome_iff_exists.mp (inStep.contains.mp mem)
  rw [load?,found]
  rfl

theorem InStep.values (inStep : m.InStep) [Inhabited β] : m.values.map some = m.keys.map m.load? := by
  rw [OrderedMap.values,map_map]
  exact map_congr_left fun k mem => inStep.loaded mem

theorem InStep.entries (inStep : m.InStep) [Inhabited β] :
    m.entries.map (fun e => (e.1,some e.2)) = m.keys.map fun k => (k,m.load? k) := by
  rw [OrderedMap.entries,map_map]
  exact map_congr_left fun k mem => congrArg (Prod.mk k) (inStep.loaded mem)

theorem storesInStep {r : OrderedMap κ β} (inStep : r.InStep) (f : κ → β) (ks : List κ) (distinct : (r.keys ++ ks).Nodup) :
    let q := (ks.map fun k => (k,f k)).foldl (fun r e => r.store e.1 e.2) r
    q.InStep ∧ q.keys = r.keys ++ ks ∧ ∀ k, q.load? k = if k ∈ ks then some (f k) else r.load? k := by
  induction ks generalizing r with
  | nil => exact ⟨inStep,(append_nil _).symm,fun k => by simp⟩
  | cons a ks ih =>
    have fresh : a ∉ r.keys := fun mem => (nodup_append.mp distinct).2.2 a mem a (.head _) rfl
    have keys := (inStep.keysStore a (f a)).trans (if_neg fresh)
    obtain ⟨still,all,loads⟩ := ih (inStep.store a (f a)) (by rw [keys]; simpa using distinct)
    refine ⟨still,by rw [map_cons,foldl_cons,all,keys]; simp,fun k => ?_⟩
    rw [map_cons,foldl_cons,loads,loadStore]
    by_cases same : k = a <;> simp [same]

theorem InStep.clone (inStep : m.InStep) [Inhabited β] :
    m.clone.InStep ∧ m.clone.keys = m.keys ∧ ∀ k, m.clone.load? k = m.load? k := by
  obtain ⟨still,keys,loads⟩ := storesInStep inStepEmpty (fun k => (m.table.find? k).getD default) m.keys
    inStep.distinct
  refine ⟨still,keys,fun k => (loads k).trans ?_⟩
  split
  · rename_i mem
    exact inStep.loaded mem
  · rename_i absent
    exact (inStep.absent absent).symm

inductive Change (κ β : Type) where
  | store (k : κ) (v : β)
  | delete (k : κ)

def Change.key : Change κ β → κ
  | .store k _ => k
  | .delete k => k

def after (m : OrderedMap κ β) : Change κ β → OrderedMap κ β
  | .store k v => m.store k v
  | .delete k => m.delete k

/- Something that began with one change and lasted through all later ones. -/
def Since (begins : List (Change κ β) → Change κ β → Prop) (lasts : Change κ β → Prop) (past : List (Change κ β)) :
    Prop := ∃ before c later, past = before ++ c :: later ∧ begins before c ∧ ∀ d ∈ later, lasts d

/-- The last change of the key `k` stored `v`. -/
def Holds (k : κ) (v : β) : List (Change κ β) → Prop := Since (fun _ c => c = .store k v) (·.key ≠ k)

def Stored (k : κ) : List (Change κ β) → Prop := Since (fun _ c => ∃ v, c = .store k v) (· ≠ .delete k)

/-- Change number `n` was the first to store the key `k` since its last deletion. -/
def Born (k : κ) (n : Nat) : List (Change κ β) → Prop :=
  Since (fun before c => before.length = n ∧ ¬ Stored k before ∧ ∃ v, c = .store k v) (· ≠ .delete k)

variable {begins : List (Change κ β) → Change κ β → Prop} {lasts : Change κ β → Prop} {past : List (Change κ β)}
  {c : Change κ β} {k : κ} {v : β}

omit [DecidableEq κ] in
theorem sinceNil : ¬ Since begins lasts [] := by
  rintro ⟨before,c,later,split,-⟩
  simp at split

omit [DecidableEq κ] in
theorem sinceSnoc : Since begins lasts (past ++ [c]) ↔ begins past c ∨ Since begins lasts past ∧ lasts c := by
  constructor
  · rintro ⟨before,d,later,split,begun,lasting⟩
    rcases eq_nil_or_concat later with rfl | ⟨later,e,rfl⟩
    · obtain ⟨rfl,same⟩ := append_inj' split rfl
      exact .inl (singleton_inj.mp same ▸ begun)
    · rw [concat_eq_append,← cons_append,← append_assoc] at split
      obtain ⟨rfl,same⟩ := append_inj' split rfl
      obtain rfl := singleton_inj.mp same
      exact .inr ⟨⟨before,d,later,rfl,begun,fun e mem => lasting e (by simp [mem])⟩,lasting _ (by simp)⟩
  · rintro (begun | ⟨⟨before,d,later,rfl,begun,lasting⟩,last⟩)
    · exact ⟨past,c,[],rfl,begun,nofun⟩
    · refine ⟨before,d,later ++ [c],by simp,begun,fun e mem => ?_⟩
      rcases mem_append.mp mem with mem | mem
      · exact lasting e mem
      · exact mem_singleton.mp mem ▸ last

omit [DecidableEq κ] in
theorem storedBorn (stored : Stored k past) : ∃ n < past.length, Born k n past := by
  induction past using reverseRecOn with
  | nil => exact absurd stored sinceNil
  | append_singleton past c ih =>
    by_cases before : Stored k past
    · obtain ⟨n,lt,born⟩ := ih before
      refine ⟨n,by simp; omega,sinceSnoc.mpr (.inr ⟨born,?_⟩)⟩
      rcases sinceSnoc.mp stored with ⟨v,rfl⟩ | ⟨-,lasts⟩
      · exact nofun
      · exact lasts
    · have new := (sinceSnoc.mp stored).resolve_right fun both => before both.1
      exact ⟨past.length,by simp,sinceSnoc.mpr (.inl ⟨rfl,before,new⟩)⟩

def Earlier (past : List (Change κ β)) (a b : κ) : Prop := ∃ i j, i < j ∧ Born a i past ∧ Born b j past

omit [DecidableEq κ] in
theorem Earlier.still {a b} (earlier : Earlier past a b) (hereA : c ≠ .delete a) (hereB : c ≠ .delete b) :
    Earlier (past ++ [c]) a b := by
  obtain ⟨i,j,lt,first,second⟩ := earlier
  exact ⟨i,j,lt,sinceSnoc.mpr (.inr ⟨first,hereA⟩),sinceSnoc.mpr (.inr ⟨second,hereB⟩)⟩

/-- Keys are listed once, in the order in which they were first stored since their last deletion, with the values that
were stored last. -/
structure Reflects (m : OrderedMap κ β) (past : List (Change κ β)) : Prop where
  inStep : m.InStep
  stored : ∀ k, k ∈ m.keys ↔ Stored k past
  loads : ∀ k v, m.load? k = some v ↔ Holds k v past
  ordered : m.keys.Pairwise (Earlier past)

theorem reflectsNil : Reflects (empty : OrderedMap κ β) [] :=
  ⟨inStepEmpty,fun _ => ⟨nofun,fun stored => absurd stored sinceNil⟩,
    fun _ _ => ⟨nofun,fun holds => absurd holds sinceNil⟩,.nil⟩

theorem Reflects.store (reflects : Reflects m past) (k : κ) (v : β) :
    Reflects (m.store k v) (past ++ [.store k v]) := by
  have kept := reflects.ordered.imp fun earlier => earlier.still (c := .store k v) nofun nofun
  have keys := reflects.inStep.keysStore k v
  have loads (a : κ) (w : β) : (m.store k v).load? a = some w ↔ Holds a w (past ++ [.store k v]) := by
    rw [loadStore,Holds,sinceSnoc]
    split
    · rename_i same
      simp [same,Change.key,eq_comm]
    · rename_i other
      rw [reflects.loads]
      simp [Change.key,Ne.symm other,Holds]
  have stored (a : κ) : Stored a (past ++ [.store k v]) ↔ a = k ∨ a ∈ m.keys := by
    rw [Stored,sinceSnoc,reflects.stored]
    simp [Stored,eq_comm]
  by_cases known : k ∈ m.keys
  · rw [if_pos known] at keys
    refine ⟨reflects.inStep.store k v,fun a => ?_,loads,keys ▸ kept⟩
    rw [keys,stored]
    exact ⟨.inr,fun h => h.elim (fun same => same ▸ known) id⟩
  · rw [if_neg known] at keys
    refine ⟨reflects.inStep.store k v,fun a => ?_,loads,?_⟩
    · rw [keys,stored,mem_append,mem_singleton,or_comm]
    · rw [keys]
      refine pairwise_append.mpr ⟨kept,pairwise_singleton _ _,fun a mem b found => ?_⟩
      obtain rfl := mem_singleton.mp found
      obtain ⟨i,lt,born⟩ := storedBorn ((reflects.stored a).mp mem)
      exact ⟨i,past.length,lt,sinceSnoc.mpr (.inr ⟨born,nofun⟩),
        sinceSnoc.mpr (.inl ⟨rfl,fun stored => known ((reflects.stored b).mpr stored),v,rfl⟩)⟩

theorem Reflects.delete (reflects : Reflects m past) (k : κ) : Reflects (m.delete k) (past ++ [.delete k]) := by
  have keys := reflects.inStep.keysDelete k
  have left (a : κ) : a ∈ (m.delete k).keys ↔ a ≠ k ∧ a ∈ m.keys := by
    rw [keys,reflects.inStep.distinct.mem_erase_iff]
  refine ⟨reflects.inStep.delete k,fun a => ?_,fun a w => ?_,?_⟩
  · rw [left,reflects.stored,Stored,sinceSnoc]
    simp [and_comm,eq_comm]
  · rw [loadDelete,Holds,sinceSnoc]
    split
    · rename_i same
      simp [same,Change.key]
    · rename_i other
      rw [reflects.loads]
      simp [Change.key,Ne.symm other,Holds]
  · have kept : (m.delete k).keys.Sublist m.keys := keys ▸ erase_sublist
    refine (reflects.ordered.sublist kept).imp_of_mem fun memA memB earlier => ?_
    have other {a : κ} (mem : a ∈ (m.delete k).keys) : Change.delete (β := β) k ≠ .delete a :=
      fun same => ((left a).mp mem).1 (Change.delete.inj same).symm
    exact earlier.still (other memA) (other memB)

theorem Reflects.clone (reflects : Reflects m past) [Inhabited β] : Reflects m.clone past := by
  obtain ⟨inStep,keys,loads⟩ := reflects.inStep.clone
  refine ⟨inStep,fun k => ?_,fun k v => ?_,?_⟩
  · rw [keys,reflects.stored]
  · rw [loads,reflects.loads]
  · rw [keys]
    exact reflects.ordered

theorem Reflects.after (reflects : Reflects m past) (c : Change κ β) : Reflects (m.after c) (past ++ [c]) := by
  cases c with
  | store k v => exact reflects.store k v
  | delete k => exact reflects.delete k

inductive Action (κ β : Type) where
  | change (i : Nat) (c : Change κ β)
  | clone (i : Nat)

def Action.change? (i : Nat) : Action κ β → Option (Change κ β)
  | .change j c => if j = i then some c else none
  | .clone _ => none

section Runs

variable [Inhabited β]

def act (maps : List (OrderedMap κ β)) : Action κ β → List (OrderedMap κ β)
  | .change i c => maps.modify i (·.after c)
  | .clone i => maps ++ (maps[i]?.map clone).toList

def record (pasts : List (List (Change κ β))) : Action κ β → List (List (Change κ β))
  | .change i c => pasts.modify i (· ++ [c])
  | .clone i => pasts ++ pasts[i]?.toList

omit [Inhabited β] in
theorem reflectsModify {maps : List (OrderedMap κ β)} {pasts} (reflect : Forall₂ Reflects maps pasts) (i : Nat)
    (c : Change κ β) : Forall₂ Reflects (maps.modify i (·.after c)) (pasts.modify i (· ++ [c])) := by
  induction reflect generalizing i with
  | nil => cases i <;> exact .nil
  | cons here later ih =>
    cases i with
    | zero => exact .cons (here.after c) later
    | succ i => exact .cons here (ih i)

theorem reflectsAct {maps : List (OrderedMap κ β)} {pasts} (reflect : Forall₂ Reflects maps pasts)
    (a : Action κ β) : Forall₂ Reflects (act maps a) (record pasts a) := by
  cases a with
  | change i c => exact reflectsModify reflect i c
  | clone i =>
    refine rel_append reflect ?_
    by_cases inside : i < maps.length
    · have inside' : i < pasts.length := reflect.length_eq ▸ inside
      rw [getElem?_eq_getElem inside,getElem?_eq_getElem inside']
      exact .cons (reflect.get inside inside').clone .nil
    · rw [getElem?_eq_none (not_lt.mp inside),getElem?_eq_none (reflect.length_eq ▸ not_lt.mp inside)]
      exact .nil

theorem reflectsRun (actions : List (Action κ β)) {maps : List (OrderedMap κ β)} {pasts}
    (reflect : Forall₂ Reflects maps pasts) :
    Forall₂ Reflects (actions.foldl act maps) (actions.foldl record pasts) := by
  induction actions generalizing maps pasts with
  | nil => exact reflect
  | cons a actions ih => exact ih (reflectsAct reflect a)

theorem actOwn {maps : List (OrderedMap κ β)} (a : Action κ β) {i m} (found : maps[i]? = some m) :
    (act maps a)[i]? = some ((a.change? i).toList.foldl after m) := by
  cases a with
  | change j c =>
    by_cases same : j = i
    · simp [act,Action.change?,same,found]
    · simp [act,Action.change?,same,found]
  | clone j => rw [act,getElem?_append_left (List.getElem?_eq_some_iff.mp found).1,found]; rfl

/- A map goes through the changes that name it, whatever happens to the others. -/
theorem runOwn (later : List (Action κ β)) {maps : List (OrderedMap κ β)} {i m} (found : maps[i]? = some m) :
    (later.foldl act maps)[i]? = some ((later.filterMap (·.change? i)).foldl after m) := by
  induction later generalizing maps m with
  | nil => exact found
  | cons a later ih =>
    rw [foldl_cons,ih (actOwn a found),filterMap_cons]
    cases a.change? i <;> rfl

end Runs

end OrderedMap

end TileLower

import TileLower.Proofs.MapTexts

/-!
Names that are given out. A call for a name in use gives that name with a number behind it, whether or not this text
is in use. Main statement: `UniqueNames.namesDistinct`.
-/
namespace TileLower.UniqueNames

open List

def suffixed (base : String) (count : Nat) : String := base ++ "_" ++ toString count

theorem numberText (i : Nat) : (toString i).toList = Nat.toDigits 10 i := by
  rw [Nat.toString_eq_repr,Nat.toList_repr]

theorem suffixedText (base : String) (count : Nat) :
    (suffixed base count).toList = base.toList ++ '_' :: Nat.toDigits 10 count := by
  simp [suffixed]

theorem numberBare (i : Nat) : '_' ∉ Nat.toDigits 10 i := fun mem =>
  absurd (Nat.isDigit_of_mem_toDigits (by decide) (by decide) mem) (by decide)

theorem numberInj {i j : Nat} (same : toString i = toString j) : i = j := by
  rw [Nat.toString_eq_repr,Nat.toString_eq_repr] at same
  exact Nat.repr_injective same

theorem suffixedInj {r s : String} {i j : Nat} (same : suffixed r i = suffixed s j) : r = s ∧ i = j := by
  have texts := congrArg (fun t : String => t.toList.reverse) same
  simp only [suffixedText,reverse_append,reverse_cons,append_assoc,singleton_append] at texts
  obtain ⟨digits,bases⟩ := cutAt (mt mem_reverse.mp (numberBare i)) (mt mem_reverse.mp (numberBare j)) texts
  refine ⟨String.toList_inj.mp (reverse_injective bases),numberInj (String.toList_inj.mp ?_)⟩
  rw [numberText,numberText,reverse_injective digits]

theorem suffixedFilled (r : String) (i : Nat) : suffixed r i ≠ "" := fun same => by
  have text := suffixedText r i
  simp [same] at text

theorem suffixedOther (r : String) (i : Nat) : suffixed r i ≠ r := fun same => by
  have length := congrArg (fun t : String => t.toList.length) same
  simp [suffixedText] at length

variable {n : UniqueNames}

theorem counterSet (n : UniqueNames) (name other : String) (count : Nat) :
    (n.setCounter name count).counter? other = if other = name then some count else n.counter? other := by
  by_cases same : other = name
  · simp [setCounter,counter?,same]
  · have differs : name ≠ other := Ne.symm same
    simp only [setCounter,counter?,find?_cons,differs,decide_false,find?_filter,if_neg same]
    congr 2
    funext use
    by_cases here : use.1 = other
    · simp [here,same]
    · simp [here]

/- Fewer names are in use than numbers are tried. -/
theorem takenFrom {fuel i : Nat} (taken : (n.counter? (toString (n.freeNumber fuel i))).isSome) :
    ∀ k ≤ fuel, (n.counter? (toString (i + k))).isSome := by
  induction fuel generalizing i with
  | zero =>
    intro k le
    rwa [Nat.le_zero.mp le]
  | succ fuel ih =>
    rw [freeNumber] at taken
    split at taken
    · rename_i here
      intro k le
      cases k with
      | zero => exact here
      | succ k => exact Nat.succ_add_eq_add_succ i k ▸ ih taken k (Nat.le_of_succ_le_succ le)
    · exact absurd taken ‹_›

theorem freeNumberFree (n : UniqueNames) (i : Nat) : n.counter? (toString (n.freeNumber n.uses.length i)) = none := by
  refine Option.not_isSome_iff_eq_none.mp fun taken => ?_
  have all := takenFrom taken
  have once : ((range (n.uses.length + 1)).map fun k => toString (i + k)).Nodup :=
    nodup_range.map fun j k same => Nat.add_left_cancel (numberInj same)
  have within : ((range (n.uses.length + 1)).map fun k => toString (i + k)) ⊆ n.uses.map Prod.fst := by
    intro s mem
    obtain ⟨k,below,rfl⟩ := mem_map.mp mem
    have found := all k (Nat.le_of_lt_succ (mem_range.mp below))
    rw [counter?,Option.isSome_map,find?_isSome] at found
    obtain ⟨use,here,is⟩ := found
    exact mem_map.mpr ⟨use,here,of_decide_eq_true is⟩
  have length := (once.subperm within).length_le
  simp at length

def repeats (base : String) (bases names : List String) : Nat :=
  (bases.zip names).countP fun call => call.1 = base ∧ call.2 ≠ base

/- The tables after calls for `bases` gave `names`, all different. -/
structure Records (n : UniqueNames) (bases names : List String) : Prop where
  length : bases.length = names.length
  taken : ∀ s, (n.counter? s).isSome ↔ s ∈ names
  asked : ∀ b ∈ bases, b ≠ "" → b ∈ names
  filled : "" ∉ names
  counts : ∀ r c, n.counter? r = some c → c = repeats r bases names + 1
  formed : ∀ s ∈ names, s ∈ bases ∨ '_' ∉ s.toList ∨ ∃ r k, s = suffixed r k ∧ k ≤ repeats r bases names

theorem Records.empty : Records empty [] [] where
  length := rfl
  taken s := by simp [UniqueNames.empty,counter?]
  asked := nofun
  filled := not_mem_nil
  counts r c found := by cases found
  formed := nofun

section Step

variable {bases names : List String} (records : Records n bases names)

include records

theorem Records.repeatsNew {r : String} (new : r ∉ names) (some_ : r ≠ "") : repeats r bases names = 0 := by
  refine countP_eq_zero.mpr fun call mem is => ?_
  rw [decide_eq_true_iff] at is
  exact new (records.asked r (is.1 ▸ (of_mem_zip mem).1) some_)

theorem Records.repeatsPush (r base name : String) : repeats r (bases ++ [base]) (names ++ [name]) =
    repeats r bases names + if base = r ∧ name ≠ r then 1 else 0 := by
  rw [repeats,zip_append records.length,countP_append]
  simp [repeats,countP_cons]

/- A call that gives a text not in use: it is in use from now on, and a call for a name in use counts for that name. -/
theorem Records.push {base name : String} {m : UniqueNames} (new : name ∉ names) (some_ : name ≠ "")
    (covers : base ≠ "" → base = name ∨ base ∈ names)
    (own : base = name ∨ '_' ∉ name.toList ∨ ∃ c, n.counter? base = some c ∧ name = suffixed base c)
    (tables : ∀ s, m.counter? s =
      if s = name then some 1 else if s = base then (n.counter? base).map (· + 1) else n.counter? s) :
    Records m (bases ++ [base]) (names ++ [name]) where
  length := by simp [records.length]
  taken s := by
    rw [tables,mem_append,mem_singleton]
    split
    · simp [*]
    · rename_i other
      split
      · rename_i same
        simp [← same,other,records.taken]
      · simp [other,records.taken]
  asked b mem filled := by
    rw [mem_append,mem_singleton] at mem ⊢
    rcases mem with old | rfl
    · exact .inl (records.asked b old filled)
    · exact (covers filled).symm
  filled := by simp [records.filled,some_.symm]
  counts r c found := by
    rw [tables] at found
    rw [records.repeatsPush]
    split at found
    · rename_i same
      cases found
      simp [same,records.repeatsNew new some_]
    · rename_i other
      split at found
      · rename_i same
        subst same
        obtain ⟨c,here,rfl⟩ := Option.map_eq_some_iff.mp found
        simp [records.counts r c here,Ne.symm other]
      · rename_i differs
        simp [records.counts r c found,Ne.symm differs]
  formed s mem := by
    rw [mem_append,mem_singleton] at mem ⊢
    rcases mem with old | rfl
    · refine (records.formed s old).imp .inl (Or.imp_right fun ⟨r,k,is,le⟩ => ⟨r,k,is,?_⟩)
      exact le.trans (records.repeatsPush r base name ▸ Nat.le_add_right ..)
    · refine own.imp (fun same => .inr same.symm) (Or.imp_right fun ⟨c,here,is⟩ => ⟨base,c,is,?_⟩)
      have other : s ≠ base := is ▸ suffixedOther base c
      simp [records.repeatsPush,records.counts base c here,other]

theorem Records.notTaken {s : String} : n.counter? s = none ↔ s ∉ names := by
  rw [← records.taken,Option.not_isSome_iff_eq_none]

theorem Records.step {base : String} (new : (n.name base).1 ∉ names) :
    Records (n.name base).2 (bases ++ [base]) (names ++ [(n.name base).1]) := by
  by_cases blank : base = ""
  · subst blank
    have text := numberText (n.freeNumber n.uses.length n.next)
    refine records.push new ?_ (absurd rfl) (.inr (.inl (text ▸ numberBare _))) fun s => ?_
    · exact fun is => absurd (text.symm.trans (congrArg String.toList is)) Nat.toDigits_ne_nil
    · refine (n.counterSet _ s 1).trans (if_congr Iff.rfl rfl ?_)
      split
      · simp [*,records.notTaken.mpr records.filled]
      · rfl
  · rw [name,if_neg blank] at new ⊢
    cases found : n.counter? base with
    | none =>
      refine records.push (records.notTaken.mp found) blank (fun _ => .inl rfl) (.inl rfl) fun s => ?_
      refine (n.counterSet base s 1).trans (if_congr Iff.rfl rfl ?_)
      split
      · simp [*]
      · rfl
    | some c =>
      rw [found] at new
      have taken := (records.taken base).mp (by simp [found])
      refine records.push new (suffixedFilled base c) (fun _ => .inr taken) (.inr (.inr ⟨c,found,rfl⟩)) fun s => ?_
      rw [counterSet,counterSet,found]
      rfl

/- A call gives a name in use exactly if the name with the next number behind it was asked for. -/
theorem Records.clashIff (base : String) : (n.name base).1 ∈ names ↔
    base ∈ names ∧ suffixed base (repeats base bases names + 1) ∈ bases := by
  by_cases blank : base = ""
  · subst blank
    exact iff_of_false (records.notTaken.mp (n.freeNumberFree n.next)) fun both => records.filled both.1
  · rw [name,if_neg blank]
    cases found : n.counter? base with
    | none =>
      have new := records.notTaken.mp found
      exact iff_of_false new fun both => new both.1
    | some c =>
      obtain rfl := records.counts base c found
      refine ⟨fun mem => ⟨(records.taken base).mp (by simp [found]),?_⟩,fun both => ?_⟩
      · rcases records.formed _ mem with asked | bare | ⟨r,k,is,le⟩
        · exact asked
        · exact absurd (by simp) bare
        · obtain ⟨rfl,rfl⟩ := suffixedInj is
          omega
      · exact records.asked _ both.2 (suffixedFilled base _)

end Step

/-- A call that gets a text given out before: `base` is in use, and `base` with its next number behind it was itself
asked for. -/
def Clash (before : List String) (base : String) : Prop :=
  base ∈ empty.nameAll before ∧ suffixed base (repeats base before (empty.nameAll before) + 1) ∈ before

theorem Records.distinctIff {bases names rest : List String} (records : Records n bases names) (once : names.Nodup) :
    (names ++ n.nameAll rest).Nodup ↔ ∀ before base after, rest = before ++ base :: after →
      ¬ (base ∈ names ++ n.nameAll before ∧
        suffixed base (repeats base (bases ++ before) (names ++ n.nameAll before) + 1) ∈ bases ++ before) := by
  induction rest generalizing n bases names with
  | nil => simp [nameAll,once]
  | cons first rest ih =>
    by_cases clash : (n.name first).1 ∈ names
    · refine iff_of_false (fun nodup => ?_) fun none_ => ?_
      · exact disjoint_of_nodup_append nodup clash (.head _)
      · exact none_ [] first rest rfl (by simpa [nameAll] using (records.clashIff first).mp clash)
    · have next := ih (records.step clash) (once.append (nodup_singleton _) (by simpa using clash))
      rw [append_assoc] at next
      refine next.trans ⟨fun none_ before base after split => ?_,fun none_ before base after split => ?_⟩
      · cases before with
        | nil =>
          cases split
          simpa [nameAll] using mt (records.clashIff first).mpr clash
        | cons b before =>
          cases split
          simpa [nameAll] using none_ before base after rfl
      · simpa [nameAll] using none_ (first :: before) base after (by rw [split,cons_append])

/-- All names are different if and only if no call clashes. -/
theorem namesDistinct (bases : List String) : (empty.nameAll bases).Nodup ↔
    ∀ before base after, bases = before ++ base :: after → ¬ Clash before base := by
  simpa [Clash] using Records.empty.distinctIff List.nodup_nil

theorem askedBeforeGiven : ¬ (empty.nameAll ["A_1", "A", "A"]).Nodup := by decide

end TileLower.UniqueNames

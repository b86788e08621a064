import Mathlib
import TileLower.Affine.Map

/-! Natural numbers as machine words. Sizes and coordinates are words that hold natural numbers below
`2 ^ 63`; on them wrapping arithmetic is exact as long as the exact result is below that bound. -/
namespace TileLower

open Int64

def wordBound : Nat := 2 ^ 63

def words (ns : List Nat) : List Int64 := ns.map ofNat

@[simp] theorem wordsNil : words [] = [] := rfl

@[simp] theorem wordsCons (n : Nat) (ns : List Nat) : words (n :: ns) = ofNat n :: words ns := rfl

@[simp] theorem wordsAppend (ms ns : List Nat) : words (ms ++ ns) = words ms ++ words ns :=
  List.map_append

@[simp] theorem wordsLength (ns : List Nat) : (words ns).length = ns.length := List.length_map ..

theorem wordsGet (ns : List Nat) (i : Nat) : (words ns)[i]? = ns[i]?.map ofNat :=
  List.getElem?_map ..

namespace Word

theorem toIntOfNat {n} (small : n < wordBound) : (ofNat n).toInt = n :=
  toInt_ofNat_of_lt small

theorem toNatOfNat {n} (small : n < wordBound) : (ofNat n).toNatClampNeg = n :=
  toNatClampNeg_ofNat_of_lt small

theorem ofNatInj {m n} (hm : m < wordBound) (hn : n < wordBound) (same : ofNat m = ofNat n) : m = n := by
  have h := congrArg toNatClampNeg same
  rwa [toNatOfNat hm,toNatOfNat hn] at h

theorem ofNatEqIff {m n} (hm : m < wordBound) (hn : n < wordBound) : ofNat m = ofNat n ↔ m = n :=
  ⟨ofNatInj hm hn,fun h => h ▸ rfl⟩

theorem ofNatNonneg {n} (small : n < wordBound) : (0 : Int64) ≤ ofNat n := by
  rw [le_iff_toInt_le,toIntOfNat small]
  simp

theorem ofNatLtIff {m n} (hm : m < wordBound) (hn : n < wordBound) : ofNat m < ofNat n ↔ m < n := by
  rw [lt_iff_toInt_lt,toIntOfNat hm,toIntOfNat hn,Int.ofNat_lt]

theorem ofNatLeIff {m n} (hm : m < wordBound) (hn : n < wordBound) : ofNat m ≤ ofNat n ↔ m ≤ n := by
  rw [le_iff_toInt_le,toIntOfNat hm,toIntOfNat hn,Int.ofNat_le]

theorem limitSmall : lengthLimit.toNatClampNeg < wordBound := by decide

theorem leLimit {n} (small : n < wordBound) : ofNat n ≤ lengthLimit ↔ n ≤ lengthLimit.toNatClampNeg := by
  have limit : lengthLimit = ofNat lengthLimit.toNatClampNeg := by decide
  rw [← ofNatLeIff small limitSmall,← limit]

theorem notBelow {n} {x : Int64} (small : n < wordBound) (le : x.toNatClampNeg ≤ n) : ¬ ofNat n < x := by
  rw [lt_iff_toInt_lt,toIntOfNat small]
  rw [← toNat_toInt] at le
  omega

theorem notNegative {n} (small : n < wordBound) : ¬ ofNat n < 0 := by
  rw [lt_iff_toInt_lt,toIntOfNat small]
  simp

theorem ofNonneg {x : Int64} (nonneg : 0 ≤ x) : x = ofNat x.toNatClampNeg ∧ x.toNatClampNeg < wordBound :=
  ⟨(ofNat_toNatClampNeg x nonneg).symm,x.toNatClampNeg_lt⟩

theorem existsOfNonneg {x} (nonneg : 0 ≤ x) : ∃ n, n < wordBound ∧ x = ofNat n :=
  ⟨x.toNatClampNeg,(ofNonneg nonneg).2,(ofNonneg nonneg).1⟩

theorem existsOfPos {x} (pos : 0 < x) : ∃ n, n < wordBound ∧ 0 < n ∧ x = ofNat n := by
  obtain ⟨n,small,rfl⟩ := existsOfNonneg (Int64.le_of_lt pos)
  rw [show (0 : Int64) = ofNat 0 from rfl,ofNatLtIff (by decide) small] at pos
  exact ⟨n,small,pos,rfl⟩

theorem addWords (m n : Nat) : ofNat m + ofNat n = ofNat (m + n) :=
  (ofNat_add m n).symm

theorem mulWords (m n : Nat) : ofNat m * ofNat n = ofNat (m * n) :=
  (ofNat_mul m n).symm

theorem subWords {m n} (le : n ≤ m) : ofNat m - ofNat n = ofNat (m - n) := by
  obtain ⟨k,rfl⟩ := Nat.exists_eq_add_of_le le
  rw [ofNat_add,Nat.add_sub_cancel_left,Int64.add_comm,Int64.add_sub_cancel]

theorem divWords {m n} (hm : m < wordBound) (hn : n < wordBound) :
    ofNat m / ofNat n = ofNat (m / n) := by
  have hq : m / n < wordBound := (Nat.div_le_self m n).trans_lt hm
  apply toInt_inj.mp
  rw [toInt_div_of_ne_left,toIntOfNat hm,toIntOfNat hn,toIntOfNat hq]
  · rfl
  intro same
  have h := congrArg toInt same
  rw [toIntOfNat hm] at h
  have : (0 : Int) ≤ minValue.toInt := h ▸ Int.natCast_nonneg m
  exact absurd this (by decide)

theorem divNonpos {x : Int64} {n : Nat} (less : x.toInt < n) (small : n < wordBound) : x / ofNat n ≤ 0 := by
  have num := toIntOfNat small
  have other : ofNat n ≠ -1 := fun same => by
    have same := congrArg toInt same
    rw [num,toInt_neg,toInt_one] at same
    simp at same
  rw [le_iff_toInt_le,toInt_zero,toInt_div_of_ne_right _ _ other,num]
  rcases lt_or_ge x.toInt 0 with neg | nonneg
  · have nonneg := Int.tdiv_nonneg (a := -x.toInt) (b := n) (by omega) (by omega)
    rw [Int.neg_tdiv] at nonneg
    omega
  · exact (Int.tdiv_eq_zero_of_lt nonneg less).le

theorem modWords {m n} (hm : m < wordBound) (hn : n < wordBound) :
    ofNat m % ofNat n = ofNat (m % n) := by
  have hr : m % n < wordBound := (Nat.mod_le m n).trans_lt hm
  apply toInt_inj.mp
  rw [toInt_mod,toIntOfNat hm,toIntOfNat hn,toIntOfNat hr]
  rfl

end Word

def Small (ns : List Nat) : Prop := ∀ n ∈ ns, n < wordBound

instance (ns : List Nat) : Decidable (Small ns) := inferInstanceAs (Decidable (∀ n ∈ ns, n < wordBound))

theorem Small.head {n ns} (h : Small (n :: ns)) : n < wordBound := h n (.head _)

theorem Small.tail {n ns} (h : Small (n :: ns)) : Small ns := fun m hm => h m (.tail _ hm)

theorem wordsInj {ms ns} (hm : Small ms) (hn : Small ns) (same : words ms = words ns) : ms = ns := by
  induction ms generalizing ns with
  | nil => cases ns with
    | nil => rfl
    | cons n ns => simp at same
  | cons m ms ih => cases ns with
    | nil => simp at same
    | cons n ns =>
      simp only [wordsCons,List.cons.injEq] at same
      rw [Word.ofNatInj hm.head hn.head same.1,ih hm.tail hn.tail same.2]

theorem wordsOfNonneg {xs} (nonneg : ∀ x ∈ xs, 0 ≤ x) : ∃ ns, Small ns ∧ xs = words ns := by
  refine ⟨xs.map toNatClampNeg,?_,?_⟩
  · intro n hn
    obtain ⟨x,hx,rfl⟩ := List.mem_map.mp hn
    exact (Word.ofNonneg (nonneg x hx)).2
  · rw [words,List.map_map]
    exact (List.map_id xs).symm.trans
      (List.map_congr_left fun x hx => (Word.ofNonneg (nonneg x hx)).1)

theorem Word.insideLength {n} {i : Int64} (nonneg : 0 ≤ i) (below : i < ofNat n) : i.toNatClampNeg < n := by
  obtain ⟨k,small,rfl⟩ := Word.existsOfNonneg nonneg
  rw [Word.toNatOfNat small]
  by_cases bounded : n < wordBound
  · exact (Word.ofNatLtIff small bounded).mp below
  · exact small.trans_le (Nat.not_lt.mp bounded)

theorem entryAtInside {β} {xs : List β} {i : Int64} (nonneg : 0 ≤ i) (below : i < ofNat xs.length) :
    ∃ x, entryAt? xs i = some x := by
  rw [entryAt?,if_neg (Int64.not_lt.mpr nonneg)]
  exact ⟨_,List.getElem?_eq_getElem (Word.insideLength nonneg below)⟩

theorem entryAtWords {β} (xs : List β) {n} (small : n < wordBound) :
    entryAt xs (ofNat n) = .ofOption xs[n]? := by
  simp only [entryAt,entryAt?,if_neg (Word.notNegative small),Word.toNatOfNat small]

end TileLower

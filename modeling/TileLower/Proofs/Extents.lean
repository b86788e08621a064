import TileLower.Proofs.Layouts

/-! Packed extents. Extents are rounded up to whole tiles in words. A packed extent is the exact quotient, rounded up, as
long as extent and tile add up to no more than `2 ^ 63`; otherwise it is not even positive. -/
namespace TileLower.Layout

open List

variable {d : Layout} {ns : List Nat}

def axes (d : Layout) (rank : Nat) : List Nat :=
  if d.outer = [] then List.range rank else d.outer.map Int64.toNatClampNeg

def exactExtent (d : Layout) (ns : List Nat) (axis : Nat) : Nat :=
  match d.tileOf? axis with
  | none => ns.getD axis 0
  | some tile => ns.getD axis 0 ⌈/⌉ tile.toNatClampNeg

def Wraps (d : Layout) (ns : List Nat) (axis : Nat) : Prop :=
  ∃ tile, d.tileOf? axis = some tile ∧ 2 ^ 63 < ns.getD axis 0 + tile.toNatClampNeg

namespace Describes

variable {T : Tiling ns.length} (h : d.Describes T) (few : ns.length < wordBound)

include h few

theorem axesOrder : d.axes ns.length = T.order := by
  rcases h.outer with outer | ⟨none,order⟩
  · rw [axes,outer]
    split
    · rename_i empty
      have empty : T.order = [] := by simpa [words] using empty
      have zero := T.orderLength
      rw [empty,length_nil] at zero
      rw [empty,← zero,range_zero]
    · rw [words,map_map]
      exact (map_congr_left fun a mem => Word.toNatOfNat (orderSmall few a mem)).trans (map_id _)
  · rw [axes,if_pos none,order]

variable {a : Nat} (ha : a < ns.length)

include ha

theorem exactTile : d.exactExtent ns a = (ns.getD a 0 + T.tile a - 1) / T.tile a := by
  rw [exactExtent,h.tileOf few ha]
  by_cases mem : a ∈ T.inner
  · simp only [if_pos mem,Word.toNatOfNat (T.tileSmall a)]
    exact Nat.ceilDiv_eq_add_pred_div ..
  · simp [mem,T.tileOfFree mem]

theorem wrapsTile (small : ns.getD a 0 < wordBound) : d.Wraps ns a ↔ 2 ^ 63 < ns.getD a 0 + T.tile a := by
  rw [Wraps,h.tileOf few ha]
  by_cases mem : a ∈ T.inner
  · simp only [if_pos mem,Option.some.injEq,exists_eq_left',Word.toNatOfNat (T.tileSmall a)]
  · rw [wordBound] at small
    simp only [if_neg mem,T.tileOfFree mem,reduceCtorEq,false_and,exists_false,false_iff]
    omega

theorem outerExtentExact (small : ns.getD a 0 < wordBound) (fits : ¬ d.Wraps ns a) :
    d.outerExtent a (Int64.ofNat (ns.getD a 0)) = Int64.ofNat (d.exactExtent ns a) := by
  rw [h.wrapsTile few ha small] at fits
  rw [h.exactTile few ha,h.outerExtent few ha (by have := T.tilePos a; rw [wordBound]; omega)]

theorem outerExtentWraps (small : ns.getD a 0 < wordBound) (wraps : d.Wraps ns a) :
    d.outerExtent a (Int64.ofNat (ns.getD a 0)) ≤ 0 ∧ 0 < Int64.ofNat (d.exactExtent ns a) := by
  have static : Int64.ofNat (ns.getD a 0) ≠ ValueType.dynamicSize := fun same =>
    Word.notNegative small (same ▸ by decide)
  have mem : a ∈ T.inner := by
    obtain ⟨tile,tiled,-⟩ := wraps
    rw [h.tileOf few ha] at tiled
    by_contra free
    rw [if_neg free] at tiled
    cases tiled
  rw [h.wrapsTile few ha small] at wraps
  have tileSmall := T.tileSmall a
  have bound : wordBound = 2 ^ 63 := rfl
  have size : Int64.size = 2 ^ 64 := rfl
  constructor
  · rw [Layout.outerExtent,h.tileOf few ha,if_pos mem]
    simp only [if_neg static]
    refine Word.divNonpos ?_ tileSmall
    -- the sum lies between `2 ^ 63` and `2 ^ 64`, so as a word it is negative
    rw [Word.addWords,show (1 : Int64) = Int64.ofNat 1 from rfl,Word.subWords (by omega),Int64.toInt_ofNat',
      ← Int.sub_bmod_right,Int.bmod_eq_of_le (by omega) (by omega)]
    omega
  · rw [h.exactTile few ha]
    have positive : 0 < (ns.getD a 0 + T.tile a - 1) / T.tile a := Nat.div_pos (by omega) (T.tilePos a)
    have below : (ns.getD a 0 + T.tile a - 1) / T.tile a < wordBound := Nat.div_lt_of_lt_mul (by rw [bound]; omega)
    exact (Word.ofNatLtIff (m := 0) (by decide) below).mpr positive

end Describes

/-- The packed shape lists the outer extents in the order of the axes, and then the tiles. An outer extent is exact if
and only if rounding up does not wrap. -/
theorem packedExtents (d : Layout) (ns : List Nat) (few : ns.length < wordBound) (small : Small ns)
    (valid : d.validate (Int64.ofNat ns.length) = .ok ()) : ∃ outer : List Int64, d.packedShape (words ns) = .ok (outer ++ d.tiles) ∧
      (∀ (i a : Nat), (d.axes ns.length)[i]? = some a → ∃ ext, outer[i]? = some ext ∧
        (¬ d.Wraps ns a → ext = Int64.ofNat (d.exactExtent ns a)) ∧ (d.Wraps ns a → ext ≤ 0)) ∧
      (outer = words ((d.axes ns.length).map (d.exactExtent ns)) ↔ ∀ a < ns.length, ¬ d.Wraps ns a) := by
  obtain ⟨T,describes⟩ := describedOfValid few valid
  obtain ⟨outer,ran,same⟩ := describes.packedShapeRuns few (wordsLength ns)
  have extents : outer = T.order.map fun a => d.outerExtent a (Int64.ofNat (ns.getD a 0)) := by
    apply map_injective_iff.mpr (Option.some_injective _)
    rw [same,map_map]
    refine map_congr_left fun a mem => ?_
    rw [outerExtents,getElem?_mapIdx,wordsGet,Tiling.getOfLt (T.memOrder.mp mem)]
    rfl
  have smallAt {a} (ha : a < ns.length) : ns.getD a 0 < wordBound :=
    small _ (mem_of_getElem? (Tiling.getOfLt ha))
  rw [describes.axesOrder few]
  refine ⟨outer,ran,fun i a at_ => ?_,?_⟩
  · have ha := T.memOrder.mp (mem_of_getElem? at_)
    refine ⟨_,by rw [extents,getElem?_map,at_]; rfl,describes.outerExtentExact few ha (smallAt ha),?_⟩
    exact fun wraps => (describes.outerExtentWraps few ha (smallAt ha) wraps).1
  · rw [extents,words,map_map,map_inj_left]
    constructor
    · intro exact_ a ha wraps
      obtain ⟨le,pos⟩ := describes.outerExtentWraps few ha (smallAt ha) wraps
      rw [exact_ a (T.memOrder.mpr ha)] at le
      exact Int64.not_lt.mpr le pos
    · exact fun fits a mem => describes.outerExtentExact few (T.memOrder.mp mem) (smallAt (T.memOrder.mp mem))
        (fits a (T.memOrder.mp mem))

theorem packedExtentsUneven : ∃ outer, packedShape ⟨[1], [1, 0], [4]⟩ (words [2, 9]) = .ok (outer ++ [4]) ∧
    outer = words [3, 2] := by
  obtain ⟨outer,ran,-,exact_⟩ := packedExtents ⟨[1], [1, 0], [4]⟩ [2, 9] (by decide) (by decide) (by decide)
  refine ⟨outer,ran,exact_.mpr fun a lt wraps => ?_⟩
  obtain ⟨tile,tiled,above⟩ := wraps
  match a, lt with
  | 0, _ => cases tiled
  | 1, _ =>
    cases tiled
    exact absurd above (by decide)

/-- An extent that rounds up to a negative word, and one that rounds up to the mark of an unknown extent. -/
theorem packedExtentsWrap : packedShape ⟨[0], [], [2]⟩ [9223372036854775807] = .ok [-4611686018427387904, 2] ∧
    packedShape ⟨[0], [], [4611686018427387904]⟩ [9223372036854775807] =
      .ok [ValueType.dynamicSize, 4611686018427387904] := by decide

end TileLower.Layout

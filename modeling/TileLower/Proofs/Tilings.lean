import TileLower.Proofs.Arrays
import TileLower.Layout

/-! Tilings: blocked layouts on natural numbers. A tiling cuts some axes into tiles and orders the outer
axes; `flat` and `blocked` are the two directions of the bijection between flat and blocked vectors. -/
namespace TileLower

open List

open Box (Inside)

structure Tiling (rank : Nat) where
  inner : List Nat
  tiles : List Nat
  order : List Nat
  innerLt : ∀ a ∈ inner, a < rank
  innerNodup : inner.Nodup
  sameLength : inner.length = tiles.length
  tilesPos : ∀ t ∈ tiles, 0 < t
  tilesSmall : Small tiles
  orderPerm : order.Perm (range rank)

namespace Tiling

variable {rank : Nat} (T : Tiling rank)

def tile (a : Nat) : Nat := T.tiles.getD (T.inner.idxOf a) 1

def flatAt (y : List Nat) (a : Nat) : Nat :=
  y.getD (T.order.idxOf a) 0 * T.tile a + y.getD (rank + T.inner.idxOf a) 0

def flat (y : List Nat) : List Nat := (range rank).map (T.flatAt y)

abbrev Maps (m : AffineMap) : Prop :=
  ∀ y : List Nat, y.length = rank + T.tiles.length → m.eval (words y) = .ok (words (T.flat y))

def blocked (x : List Nat) : List Nat :=
  T.order.map (fun a => x.getD a 0 / T.tile a) ++ T.inner.map fun a => x.getD a 0 % T.tile a

def packed (ns : List Nat) : List Nat :=
  T.order.map (fun a => (ns.getD a 0 + T.tile a - 1) / T.tile a) ++ T.tiles

theorem orderLength : T.order.length = rank := by simpa using T.orderPerm.length_eq

theorem orderNodup : T.order.Nodup := T.orderPerm.nodup_iff.mpr nodup_range

theorem memOrder {a} : a ∈ T.order ↔ a < rank := by rw [T.orderPerm.mem_iff,mem_range]

theorem tilePos (a : Nat) : 0 < T.tile a := by
  unfold tile
  rw [getD_eq_getElem?_getD]
  cases found : T.tiles[T.inner.idxOf a]? with
  | none => simp
  | some t => simpa using T.tilesPos t (mem_of_getElem? found)

theorem tileSmall (a : Nat) : T.tile a < wordBound := by
  unfold tile
  rw [getD_eq_getElem?_getD]
  cases found : T.tiles[T.inner.idxOf a]? with
  | none => decide
  | some t => simpa using T.tilesSmall t (mem_of_getElem? found)

theorem tileOfFree {a} (free : a ∉ T.inner) : T.tile a = 1 := by
  have none : T.tiles[T.inner.idxOf a]? = none := by
    rw [idxOf_eq_length free,T.sameLength]
    simp
  simp [tile,getD_eq_getElem?_getD,none]

theorem tileAt {j a : Nat} (found : T.inner[j]? = some a) : T.tiles[j]? = some (T.tile a) := by
  obtain ⟨hj,rfl⟩ := List.getElem?_eq_some_iff.mp found
  have ht : j < T.tiles.length := T.sameLength ▸ hj
  have place : T.inner.idxOf T.inner[j] = j := Nodup.idxOf_getElem T.innerNodup j hj
  simp [tile,place,getD_eq_getElem?_getD,ht]

theorem flatLength (y : List Nat) : (T.flat y).length = rank := by simp [flat]

theorem flatGet {y a} (ha : a < rank) : (T.flat y).getD a 0 = T.flatAt y a := by
  simp [flat,getD_eq_getElem?_getD,ha]

theorem blockedLength (x : List Nat) : (T.blocked x).length = rank + T.tiles.length := by
  simp [blocked,T.orderLength,T.sameLength]

theorem packedLength (ns : List Nat) : (T.packed ns).length = rank + T.tiles.length := by
  simp [packed,T.orderLength]

theorem blockedOuter {x : List Nat} {a} (ha : a < rank) :
    (T.blocked x).getD (T.order.idxOf a) 0 = x.getD a 0 / T.tile a := by
  have mem : a ∈ T.order := T.memOrder.mpr ha
  have lt : T.order.idxOf a < T.order.length := idxOf_lt_length_of_mem mem
  rw [blocked,getD_eq_getElem?_getD,getElem?_append_left (by simpa using lt)]
  simp [getElem?_eq_getElem lt]

theorem blockedInner (x : List Nat) (a : Nat) :
    (T.blocked x).getD (rank + T.inner.idxOf a) 0 = x.getD a 0 % T.tile a := by
  rw [blocked,getD_eq_getElem?_getD,getElem?_append_right (by simp [T.orderLength])]
  simp only [length_map,T.orderLength,Nat.add_sub_cancel_left,getElem?_map]
  by_cases mem : a ∈ T.inner
  · have lt : T.inner.idxOf a < T.inner.length := idxOf_lt_length_of_mem mem
    simp [getElem?_eq_getElem lt]
  · simp [idxOf_eq_length mem,T.tileOfFree mem,Nat.mod_one]

theorem flatBlocked {x : List Nat} (length : x.length = rank) : T.flat (T.blocked x) = x := by
  apply ext_getElem?
  intro a
  by_cases ha : a < rank
  · have here : T.flatAt (T.blocked x) a = x.getD a 0 := by
      rw [flatAt,T.blockedOuter ha,T.blockedInner]
      exact Nat.div_add_mod' _ _
    have hx : a < x.length := length ▸ ha
    simp only [flat,getElem?_map,getElem?_range ha,Option.map_some,here]
    simp [getD_eq_getElem?_getD,hx]
  · rw [getElem?_eq_none (by rw [T.flatLength]; omega),getElem?_eq_none (by omega)]

structure InTiles (y : List Nat) : Prop where
  length : y.length = rank + T.tiles.length
  within : ∀ j t, T.tiles[j]? = some t → y.getD (rank + j) 0 < t

theorem flatDiv {y : List Nat} (fits : T.InTiles y) (a : Nat) : T.flatAt y a / T.tile a = y.getD (T.order.idxOf a) 0 ∧
      T.flatAt y a % T.tile a = y.getD (rank + T.inner.idxOf a) 0 := by
  have below : y.getD (rank + T.inner.idxOf a) 0 < T.tile a := by
    by_cases mem : a ∈ T.inner
    · have lt : T.inner.idxOf a < T.inner.length := idxOf_lt_length_of_mem mem
      have found : T.inner[T.inner.idxOf a]? = some a := by simp [getElem?_eq_getElem lt]
      exact fits.within _ _ (T.tileAt found)
    · have none : y[rank + T.inner.idxOf a]? = none := by
        rw [idxOf_eq_length mem,T.sameLength,← fits.length]
        simp
      simpa [getD_eq_getElem?_getD,none] using T.tilePos a
  unfold flatAt
  constructor
  · rw [Nat.mul_comm,Nat.mul_add_div (T.tilePos a),Nat.div_eq_of_lt below,Nat.add_zero]
  · rw [Nat.mul_comm,Nat.mul_add_mod,Nat.mod_eq_of_lt below]

theorem blockedFlat {y} (fits : T.InTiles y) : T.blocked (T.flat y) = y := by
  have outer : T.order.map (fun a => (T.flat y).getD a 0 / T.tile a) = y.take rank := by
    apply ext_getElem
    · simp [T.orderLength,fits.length]
    · intro i hi _
      have hi' : i < T.order.length := by simpa using hi
      have lt : T.order[i] < rank := T.memOrder.mp (getElem_mem hi')
      have place : T.order.idxOf T.order[i] = i := Nodup.idxOf_getElem T.orderNodup i hi'
      have hy : i < y.length := by have := T.orderLength; rw [fits.length]; omega
      rw [getElem_map,T.flatGet lt,(T.flatDiv fits _).1,place,getElem_take]
      simp [getD_eq_getElem?_getD,hy]
  have inner : T.inner.map (fun a => (T.flat y).getD a 0 % T.tile a) = y.drop rank := by
    apply ext_getElem
    · simp [fits.length,T.sameLength]
    · intro j hj _
      have hj' : j < T.inner.length := by simpa using hj
      have lt : T.inner[j] < rank := T.innerLt _ (getElem_mem hj')
      have place : T.inner.idxOf T.inner[j] = j := Nodup.idxOf_getElem T.innerNodup j hj'
      have hy : rank + j < y.length := by rw [fits.length,← T.sameLength]; omega
      rw [getElem_map,T.flatGet lt,(T.flatDiv fits _).2,place,getElem_drop]
      simp [getD_eq_getElem?_getD,hy]
  rw [blocked,outer,inner,take_append_drop]

theorem getOfLt {ns : List Nat} {i} (hi : i < ns.length) : ns[i]? = some (ns.getD i 0) := by
  simp [getD_eq_getElem?_getD,hi]

theorem roundUp (n : Nat) {t} (pos : 0 < t) : n ≤ (n + t - 1) / t * t := by
  have parts := Nat.div_add_mod (n + t - 1) t
  have below := Nat.mod_lt (n + t - 1) pos
  rw [Nat.mul_comm] at parts
  omega

theorem wholeTiles {n t} (pos : 0 < t) (divides : t ∣ n) : (n + t - 1) / t * t = n := by
  obtain ⟨q,rfl⟩ := divides
  rw [Nat.add_sub_assoc pos,Nat.mul_add_div pos,Nat.div_eq_of_lt (by omega),Nat.add_zero,Nat.mul_comm]

theorem packedOuter (ns : List Nat) {i} (hi : i < rank) : ∃ a, T.order[i]? = some a ∧ a < rank ∧
      (T.packed ns)[i]? = some ((ns.getD a 0 + T.tile a - 1) / T.tile a) := by
  have hi' : i < T.order.length := hi.trans_eq T.orderLength.symm
  refine ⟨T.order[i],getElem?_eq_getElem hi',T.memOrder.mp (getElem_mem hi'),?_⟩
  rw [packed,getElem?_append_left (by simpa using hi')]
  simp [getElem?_eq_getElem hi']

theorem packedInner (ns : List Nat) (j : Nat) : (T.packed ns)[rank + j]? = T.tiles[j]? := by
  rw [packed,getElem?_append_right (by simp [T.orderLength])]
  simp [T.orderLength]

theorem insideTiles {y ns} (inside : Inside y (T.packed ns)) : T.InTiles y := by
  obtain ⟨length,below⟩ := Box.insideIff.mp inside
  refine ⟨length.trans (T.packedLength ns),fun j t found => below (rank + j) t ?_⟩
  rw [T.packedInner,found]

theorem insideOuter {y ns : List Nat} (inside : Inside y (T.packed ns)) {a} (ha : a < rank) :
    y.getD (T.order.idxOf a) 0 < (ns.getD a 0 + T.tile a - 1) / T.tile a := by
  have mem : a ∈ T.order := T.memOrder.mpr ha
  have lt : T.order.idxOf a < T.order.length := idxOf_lt_length_of_mem mem
  obtain ⟨b,found,_,here⟩ := T.packedOuter ns (T.orderLength ▸ lt)
  have same : b = a := by
    rw [getElem?_eq_getElem lt] at found
    simpa using found.symm
  subst same
  exact (Box.insideIff.mp inside).2 _ _ here

theorem blockedInside {x ns : List Nat} (length : ns.length = rank) (inside : Inside x ns) :
    Inside (T.blocked x) (T.packed ns) := by
  refine Box.insideIff.mpr ⟨by rw [T.blockedLength,T.packedLength],fun i n found => ?_⟩
  by_cases hi : i < rank
  · obtain ⟨a,atOrder,ha,here⟩ := T.packedOuter ns hi
    obtain ⟨hi',rfl⟩ := List.getElem?_eq_some_iff.mp atOrder
    have place : T.order.idxOf T.order[i] = i := Nodup.idxOf_getElem T.orderNodup i hi'
    have outer := T.blockedOuter (x := x) ha
    rw [place] at outer
    rw [outer,← Option.some.inj (here.symm.trans found)]
    have below : x.getD T.order[i] 0 < ns.getD T.order[i] 0 :=
      (Box.insideIff.mp inside).2 _ _ (getOfLt (ha.trans_eq length.symm))
    have pos := T.tilePos T.order[i]
    rw [Nat.div_lt_iff_lt_mul pos]
    exact below.trans_le (roundUp _ pos)
  · obtain ⟨j,rfl⟩ := Nat.exists_eq_add_of_le (Nat.le_of_not_lt hi)
    rw [T.packedInner] at found
    have hj : j < T.inner.length := T.sameLength ▸ (List.getElem?_eq_some_iff.mp found).1
    have place : T.inner.idxOf T.inner[j] = j := Nodup.idxOf_getElem T.innerNodup j hj
    have here := T.blockedInner x T.inner[j]
    have tile := T.tileAt (getElem?_eq_getElem hj)
    rw [place] at here
    rw [here,← Option.some.inj (tile.symm.trans found)]
    exact Nat.mod_lt _ (T.tilePos _)

def Divides (ns : List Nat) : Prop := ∀ a, T.tile a ∣ ns.getD a 0

theorem flatInside {y ns : List Nat} (length : ns.length = rank) (divides : T.Divides ns)
    (inside : Inside y (T.packed ns)) : Inside (T.flat y) ns := by
  refine Box.insideIff.mpr ⟨by rw [T.flatLength,length],fun a n found => ?_⟩
  have ha : a < rank := length ▸ (List.getElem?_eq_some_iff.mp found).1
  have ext : ns.getD a 0 = n := by simp [getD_eq_getElem?_getD,found]
  have pos := T.tilePos a
  have outer := T.insideOuter inside ha
  have whole := wholeTiles pos (divides a)
  rw [ext] at whole outer
  rw [← (T.flatDiv (T.insideTiles inside) a).1,Nat.div_lt_iff_lt_mul pos,whole] at outer
  rw [T.flatGet ha]
  exact outer

def Rounds (ns : List Nat) : Prop := ∀ a, ns.getD a 0 + T.tile a - 1 < wordBound

theorem flatSmall {y ns} (rounds : T.Rounds ns) (inside : Inside y (T.packed ns)) : Small (T.flat y) := by
  intro n hn
  obtain ⟨a,ha,rfl⟩ := mem_map.mp hn
  have outer := T.insideOuter inside (mem_range.mp ha)
  have pos := T.tilePos a
  have parts := T.flatDiv (T.insideTiles inside) a
  have below : T.flatAt y a / T.tile a < (ns.getD a 0 + T.tile a - 1) / T.tile a := by rw [parts.1]; exact outer
  have le : T.flatAt y a < (ns.getD a 0 + T.tile a - 1) / T.tile a * T.tile a :=
    (Nat.div_lt_iff_lt_mul pos).mp below
  exact le.trans_le (le_trans (Nat.div_mul_le_self _ _) (le_of_lt (rounds a)))

theorem packedSmall {ns} (rounds : T.Rounds ns) : Small (T.packed ns) := by
  intro n hn
  rcases mem_append.mp hn with outer | tile
  · obtain ⟨a,-,rfl⟩ := mem_map.mp outer
    exact (Nat.div_le_self _ _).trans_lt (rounds a)
  · exact T.tilesSmall n tile

theorem tilesMap : T.tiles = T.inner.map T.tile := by
  apply ext_getElem?
  intro j
  rw [getElem?_map]
  cases found : T.inner[j]? with
  | some a => simpa using T.tileAt found
  | none => simpa [T.sameLength] using found

theorem tileProduct : ((range rank).map T.tile).prod = T.tiles.prod := by
  have split := filter_append_perm (fun a => a ∈ T.inner) (range rank)
  have free : (((range rank).filter fun a => !decide (a ∈ T.inner)).map T.tile).prod = 1 := by
    apply prod_eq_one
    intro t ht
    obtain ⟨a,ha,rfl⟩ := mem_map.mp ht
    exact T.tileOfFree (by simpa using (mem_filter.mp ha).2)
  have used : ((range rank).filter fun a => decide (a ∈ T.inner)).Perm T.inner := by
    apply (perm_ext_iff_of_nodup (nodup_range.filter _) T.innerNodup).mpr
    intro a
    simpa using T.innerLt a
  calc ((range rank).map T.tile).prod = ((((range rank).filter fun a => decide (a ∈ T.inner)) ++
          (range rank).filter fun a => !decide (a ∈ T.inner)).map T.tile).prod :=
        ((split.map T.tile).prod_eq).symm
    _ = (T.inner.map T.tile).prod := by
        rw [map_append,prod_append,free,Nat.mul_one,(used.map T.tile).prod_eq]
    _ = T.tiles.prod := by rw [← T.tilesMap]

theorem packedProduct {ns : List Nat} (length : ns.length = rank) (divides : T.Divides ns) :
    (T.packed ns).prod = ns.prod := by
  have count (a : Nat) : (ns.getD a 0 + T.tile a - 1) / T.tile a * T.tile a = ns.getD a 0 :=
    wholeTiles (T.tilePos a) (divides a)
  have all : ns = (range rank).map fun a => ns.getD a 0 := by
    apply ext_getElem (by simp [length])
    intro i h1 h2
    simp [getD_eq_getElem?_getD,h1]
  calc (T.packed ns).prod
      = (T.order.map fun a => (ns.getD a 0 + T.tile a - 1) / T.tile a).prod * T.tiles.prod := prod_append
    _ = ((range rank).map fun a => (ns.getD a 0 + T.tile a - 1) / T.tile a).prod *
          ((range rank).map T.tile).prod := by rw [(T.orderPerm.map _).prod_eq,T.tileProduct]
    _ = ((range rank).map fun a => ns.getD a 0).prod := by
        rw [← prod_map_mul]
        simp only [count]
    _ = ns.prod := by rw [← all]

end Tiling
end TileLower

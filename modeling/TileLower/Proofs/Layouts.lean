import TileLower.Proofs.Tilings

/-! Layouts that pass the check for a rank are tilings. What the library computes with layouts, blocked shapes
and index maps, agrees with the tiling. -/
namespace TileLower

open Word Outcome List ValueType Tiling TileLower.AffineMap

namespace Affine.Expr

theorem evalAdd (dims : List Int64) (x y : Expr) :
    (x.add y).eval dims = do return (← x.eval dims) + (← y.eval dims) := by
  unfold add
  split
  · rfl
  · split
    · rename_i zero
      cases y.eval dims <;> simp [eval,zero,bind,Except.bind,pure,Except.pure]
    · rfl
  · split
    · rename_i zero
      cases x.eval dims <;> simp [eval,zero,bind,Except.bind,pure,Except.pure]
    · rfl
  · rfl

theorem evalMul {c} (nonzero : c ≠ 0) (dims : List Int64) (x : Expr) :
    (x.mul c).eval dims = do return (← x.eval dims) * c := by
  unfold mul
  split
  · rename_i one
    cases x.eval dims <;> simp [one,bind,Except.bind,pure,Except.pure]
  · split <;> rfl

end Affine.Expr

theorem AffineMap.evalAllMap {idx} {as : List Nat} {e v} (each : ∀ a ∈ as, (e a).eval idx = .ok (v a)) :
    evalAll idx (as.map e) = .ok (as.map v) := by
  induction as with
  | nil => rfl
  | cons a as ih =>
    simp only [map_cons,evalAll,each a (.head _),bindOfOk,ih fun b hb => each b (.tail _ hb)]

namespace Layout

open Box (Inside)

structure Describes {rank : Nat} (d : Layout) (T : Tiling rank) : Prop where
  valid : d.validate (Int64.ofNat rank) = .ok ()
  inner : d.inner = words T.inner
  tiles : d.tiles = words T.tiles
  outer : d.outer = words T.order ∨ d.outer = [] ∧ T.order = range rank

theorem validateInnerOk {d : Layout} {rank} {seen xs : List Int64} (ok : d.validateInner rank seen xs = .ok ()) :
    (∀ p ∈ xs, 0 ≤ p ∧ p < rank) ∧ xs.Nodup ∧ ∀ p ∈ xs, p ∉ seen := by
  induction xs generalizing seen with
  | nil => simp
  | cons p rest ih =>
    simp only [validateInner] at ok
    split at ok
    · simp [refuse] at ok
    · rename_i range
      split at ok
      · simp [refuse] at ok
      · rename_i fresh
        obtain ⟨bounds,distinct,unseen⟩ := ih ok
        rw [not_or,Int64.not_lt,Int64.not_le] at range
        refine ⟨?_,?_,?_⟩
        · intro q hq
          rcases mem_cons.mp hq with rfl | hq
          · exact range
          · exact bounds q hq
        · refine nodup_cons.mpr ⟨fun mem => ?_,distinct⟩
          exact unseen p mem (.head _)
        · intro q hq mem
          rcases mem_cons.mp hq with rfl | hq
          · exact fresh (by simpa using mem)
          · exact unseen q hq (.tail _ mem)

theorem validateOk {d : Layout} {rank} :
    d.validate rank = .ok () ↔ d.inner.length = d.tiles.length ∧ d.validateInner rank [] d.inner = .ok () ∧
      (∀ t ∈ d.tiles, 0 < t) ∧
      (d.outer = [] ∨ Int64.ofNat d.outer.length = rank ∧ Permutation.isVector d.outer = true) := by
  have tiles : ¬ (d.tiles.any (· ≤ 0) = true) ↔ ∀ t ∈ d.tiles, 0 < t := by
    simp [Int64.not_le]
  have outer : (if d.outer.isEmpty = true then (.ok () : Outcome Unit)
      else if Int64.ofNat d.outer.length ≠ rank ∨ ¬ Permutation.isVector d.outer = true then
        d.refuse ("outer permutation is not a permutation of " ++ Text.showInt rank ++ " axes")
      else .ok ()) = .ok () ↔
      (d.outer = [] ∨ Int64.ofNat d.outer.length = rank ∧ Permutation.isVector d.outer = true) := by
    by_cases none : d.outer = []
    · simp [none]
    · have some : d.outer.isEmpty = false := by simpa using none
      by_cases good : Int64.ofNat d.outer.length = rank ∧ Permutation.isVector d.outer = true
      · simp [some,good]
      · simp [some,good,none,refuse]
  simp only [validate]
  rw [checkOk (by simp [refuse]),bindOk]
  simp only [ne_eq,not_not]
  constructor
  · rintro ⟨length,u,inner,rest⟩
    rw [checkOk (by simp [refuse]),tiles,outer] at rest
    exact ⟨length,inner,rest⟩
  · rintro ⟨length,inner,rest⟩
    refine ⟨length,(),inner,?_⟩
    rw [checkOk (by simp [refuse]),tiles,outer]
    exact rest

theorem permOfVector {ns : List Nat} {rank} (small : Small ns) (smallRank : rank < wordBound)
    (count : Int64.ofNat ns.length = Int64.ofNat rank) (vector : Permutation.isVector (words ns) = true) :
    ns.Perm (List.range rank) := by
  simp only [Permutation.isVector,Bool.and_eq_true,all_eq_true,decide_eq_true_eq,wordsLength,count] at vector
  obtain ⟨range,distinct⟩ := vector
  have nodup : ns.Nodup := Nodup.of_map _ distinct
  have below : ns ⊆ List.range rank := by
    intro n hn
    have h := (range (Int64.ofNat n) (mem_map_of_mem hn)).2
    rw [ofNatLtIff (small n hn) smallRank] at h
    exact mem_range.mpr h
  have part := subperm_of_subset nodup below
  have few : ns.length ≤ rank := by simpa using part.length_le
  have length : ns.length = rank := ofNatInj (few.trans_lt smallRank) smallRank count
  exact part.perm_of_length_le (by simp [length])

theorem describedOfValid {d : Layout} {rank} (small : rank < wordBound) (ok : d.validate (Int64.ofNat rank) = .ok ()) :
    ∃ T : Tiling rank, d.Describes T := by
  obtain ⟨length,innerOk,tiles,outer⟩ := validateOk.mp ok
  obtain ⟨range,distinct,-⟩ := validateInnerOk innerOk
  obtain ⟨inner,innerSmall,hinner⟩ := wordsOfNonneg fun p hp => (range p hp).1
  obtain ⟨ts,tilesSmall,htiles⟩ := wordsOfNonneg fun t ht => Int64.le_of_lt (tiles t ht)
  have innerLt : ∀ a ∈ inner, a < rank := by
    intro a ha
    have h := (range (Int64.ofNat a) (hinner ▸ mem_map_of_mem ha)).2
    rwa [ofNatLtIff (innerSmall a ha) small] at h
  have tilesPos : ∀ t ∈ ts, 0 < t := by
    intro t ht
    have h := tiles (Int64.ofNat t) (htiles ▸ mem_map_of_mem ht)
    rwa [show (0 : Int64) = Int64.ofNat 0 from rfl,ofNatLtIff (by decide) (tilesSmall t ht)] at h
  have innerNodup : inner.Nodup := Nodup.of_map Int64.ofNat (by rwa [hinner] at distinct)
  have same : inner.length = ts.length := by rw [← wordsLength,← hinner,length,htiles,wordsLength]
  rcases outer with none | ⟨count,vector⟩
  · exact ⟨⟨inner,ts,List.range rank,innerLt,innerNodup,same,tilesPos,tilesSmall,.rfl⟩,
      ok,hinner,htiles,.inr ⟨none,rfl⟩⟩
  · have nonneg : ∀ p ∈ d.outer, 0 ≤ p := by
      intro p hp
      simp only [Permutation.isVector,Bool.and_eq_true,all_eq_true,decide_eq_true_eq] at vector
      exact (vector.1 p hp).1
    obtain ⟨order,orderSmall,horder⟩ := wordsOfNonneg nonneg
    rw [horder,wordsLength] at count
    rw [horder] at vector
    exact ⟨⟨inner,ts,order,innerLt,innerNodup,same,tilesPos,tilesSmall,
      permOfVector orderSmall small count vector⟩,ok,hinner,htiles,.inl horder⟩

def RoundsUp (d : Layout) (dims : List Int64) : Prop :=
  ∀ axis ext tile, dims[axis]? = some ext → d.tileOf? axis = some tile → ext.toInt + tile.toInt ≤ 2 ^ 63

theorem roundsUpIff {d : Layout} {dims : List Int64} : ((range dims.length).all fun axis =>
    (dims[axis]?).all fun ext => (d.tileOf? axis).all fun tile => ext.toInt + tile.toInt ≤ 2 ^ 63) = true ↔
      d.RoundsUp dims := by
  simp only [all_eq_true,mem_range,Option.all_eq_true,decide_eq_true_eq]
  refine ⟨fun rounds axis ext tile at_ tiled => ?_,fun rounds axis _ ext at_ tile tiled => rounds axis ext tile at_ tiled⟩
  exact rounds axis (List.getElem?_eq_some_iff.mp at_).1 ext at_ tile tiled

instance (d : Layout) (dims : List Int64) : Decidable (d.RoundsUp dims) := decidable_of_iff _ roundsUpIff

section Division

variable {d : Layout} {shape : List Int64}

def Cuts (d : Layout) (shape : List Int64) : Prop :=
  ∀ cut ∈ d.inner.zip d.tiles, ∃ ext, entryAt? shape cut.1 = some ext ∧ ext ≠ dynamicSize ∧ ext % cut.2 = 0

theorem dividesFromAnswers {rest : List Int64} {j} (length : (d.tiles.drop j).length = rest.length)
    (axes : ∀ pos ∈ rest, 0 ≤ pos ∧ pos < Int64.ofNat shape.length) (tiles : ∀ tile ∈ d.tiles, 0 < tile)
    (small : shape.length < wordBound) : ∃ whole, d.dividesFrom shape j rest = .ok whole ∧
      (whole = true ↔ ∀ cut ∈ rest.zip (d.tiles.drop j), ∃ ext, entryAt? shape cut.1 = some ext ∧
        ext ≠ dynamicSize ∧ ext % cut.2 = 0) := by
  induction rest generalizing j with
  | nil => exact ⟨true,rfl,by simp⟩
  | cons pos rest ih =>
    obtain ⟨⟨nonneg,below⟩,later⟩ := forall_mem_cons.mp axes
    obtain ⟨axis,smallAxis,rfl⟩ := existsOfNonneg nonneg
    rw [ofNatLtIff smallAxis small] at below
    have inside : j < d.tiles.length := by
      rw [length_drop,length_cons] at length
      omega
    have cut : d.tiles.drop j = d.tiles.get ⟨j,inside⟩ :: d.tiles.drop (j + 1) := drop_eq_getElem_cons inside
    obtain ⟨whole,answer,iff⟩ := ih (j := j + 1) (by rw [cut] at length; exact Nat.succ.inj length) later
    have entry : entryAt? shape (Int64.ofNat axis) = some shape[axis] := by
      rw [entryAt?,if_neg (notNegative smallAxis),toNatOfNat smallAxis,getElem?_eq_getElem below]
    have nonzero : d.tiles.get ⟨j,inside⟩ ≠ 0 := fun zero =>
      absurd (zero ▸ tiles _ (get_mem ..)) (by decide)
    have inRange : ¬ Int64.ofNat shape.length ≤ Int64.ofNat axis := by
      rw [ofNatLeIff small smallAxis]
      exact Nat.not_le_of_lt below
    rw [dividesFrom,if_neg inRange,entryAt,entry,ofOption,bindOfOk,getElem?_eq_getElem inside,
      ofOption,cut,zip_cons_cons,forall_mem_cons,entry]
    simp only [get_eq_getElem,Option.some.injEq,exists_eq_left'] at nonzero ⊢
    split
    · rename_i unknown
      exact ⟨false,rfl,by simp [unknown]⟩
    · rename_i known
      rw [bindOfOk,if_neg nonzero]
      split
      · rename_i odd
        exact ⟨false,rfl,by simp [odd]⟩
      · rename_i even
        refine ⟨whole,answer,iff.trans ?_⟩
        simp [known,not_not.mp even]

theorem dividesAnswers (small : shape.length < wordBound) (valid : d.validate (Int64.ofNat shape.length) = .ok ()) :
    ∃ whole, d.divides shape = .ok whole ∧ (whole = true ↔ d.Cuts shape) := by
  obtain ⟨length,inner,tiles,-⟩ := validateOk.mp valid
  have answers := dividesFromAnswers (j := 0) (by rw [drop_zero,length]) (validateInnerOk inner).1 tiles small
  rwa [drop_zero] at answers

end Division

namespace Describes

variable {rank : Nat} {d : Layout} {T : Tiling rank}

theorem innerSmall (small : rank < wordBound) : Small T.inner := fun a ha => (T.innerLt a ha).trans small

theorem orderSmall (small : rank < wordBound) : Small T.order := fun _ ha => (T.memOrder.mp ha).trans small

theorem fewTiles (T : Tiling rank) : T.tiles.length ≤ rank := by
  have below : T.inner ⊆ range rank := fun a ha => mem_range.mpr (T.innerLt a ha)
  rw [← T.sameLength]
  simpa using (subperm_of_subset T.innerNodup below).length_le

theorem entriesAtOf {β} {vec : List β} {as : List Nat} (small : Small as) (inside : ∀ a ∈ as, a < vec.length) :
    ∃ out, entriesAt vec (words as) = .ok out ∧ out.map some = as.map (vec[·]?) := by
  induction as with
  | nil => exact ⟨[],rfl,rfl⟩
  | cons a as ih =>
    obtain ⟨here,later⟩ := forall_mem_cons.mp inside
    obtain ⟨out,rest,same⟩ := ih small.tail later
    refine ⟨vec[a] :: out,?_,by rw [map_cons,map_cons,same,getElem?_eq_getElem here]⟩
    rw [wordsCons,entriesAt,entryAtWords vec small.head,getElem?_eq_getElem here,rest]
    rfl

theorem inverseStepOk {order : List Nat} (inv : List Nat) (small : Small order) (within : ∀ a ∈ order, a < inv.length)
    (distinct : order.Nodup) (i : Nat) :
    ∃ out, Permutation.inverseStep (words inv) i (words order) = .ok (words out) ∧
      out.length = inv.length ∧ ∀ a, out.getD a 0 = if a ∈ order then i + order.idxOf a else inv.getD a 0 := by
  induction order generalizing inv i with
  | nil => exact ⟨inv,rfl,rfl,by simp⟩
  | cons p order ih =>
    obtain ⟨fresh,distinct⟩ := nodup_cons.mp distinct
    have hp : p < inv.length := within p (.head _)
    obtain ⟨out,ok,length,entries⟩ := ih (inv.set p i) small.tail
      (fun a ha => by simpa using within a (.tail _ ha)) distinct (i + 1)
    refine ⟨out,?_,by simpa using length,fun a => ?_⟩
    · have here : (words inv)[p]? = some (Int64.ofNat (inv.getD p 0)) := by
        rw [wordsGet,getOfLt hp]
        rfl
      have set : (words inv).set p (Int64.ofNat i) = words (inv.set p i) := (map_set ..).symm
      simp only [wordsCons,Permutation.inverseStep,entryAtWords _ small.head,here,ofOption,
        bindOfOk,toNatOfNat small.head,set,ok]
    · rw [entries a]
      by_cases eq : a = p
      · subst eq
        simp [fresh,hp]
      · have ne : (p == a) = false := by simpa using fun h => eq h.symm
        have other : p ≠ a := fun h => eq h.symm
        by_cases mem : a ∈ order
        · simp only [mem,if_true,mem_cons,or_true,idxOf_cons,ne,cond_false]
          omega
        · simp [mem,eq,getD_eq_getElem?_getD,getElem?_set_ne other]

section Small

variable (h : d.Describes T) (small : rank < wordBound)

include h small

theorem parts (inner tiles order : List Nat) (smallInner : Small inner)
    (smallTiles : Small tiles) (smallOrder : Small order) (same : d = ⟨words inner,words order,words tiles⟩) :
    T.inner = inner ∧ T.tiles = tiles ∧ T.order = if order = [] then range rank else order := by
  subst same
  refine ⟨(wordsInj smallInner (innerSmall small) h.inner).symm,(wordsInj smallTiles T.tilesSmall h.tiles).symm,?_⟩
  rcases h.outer with outer | ⟨outer,range⟩
  · have same := wordsInj smallOrder (orderSmall small) outer
    split
    · rename_i none
      have zero : rank = 0 := by rw [← T.orderLength,← same,none,length_nil]
      rw [← same,none,range_eq_nil.mpr zero]
    · exact same.symm
  · rw [if_pos (map_eq_nil_iff.mp outer),range]

theorem innerIndex {a} (ha : a < rank) : d.innerIndex? a = if a ∈ T.inner then some (T.inner.idxOf a) else none := by
  have found (xs : List Nat) (hxs : Small xs) :
      (words xs).findIdx? (· == Int64.ofNat a) = if a ∈ xs then some (xs.idxOf a) else none := by
    induction xs with
    | nil => simp
    | cons x xs ih =>
      have same : (Int64.ofNat x == Int64.ofNat a) = (x == a) := by
        rw [Bool.eq_iff_iff,beq_iff_eq,beq_iff_eq,ofNatEqIff hxs.head (ha.trans small)]
      rw [wordsCons,findIdx?_cons,same,idxOf_cons,ih hxs.tail]
      by_cases eq : x = a
      · simp [eq]
      · have ne : (x == a) = false := by simpa using eq
        have other : a ≠ x := fun h => eq h.symm
        by_cases mem : a ∈ xs <;> simp [ne,other,mem]
  rw [innerIndex?,h.inner,found T.inner (innerSmall small)]

theorem tileOf {a} (ha : a < rank) : d.tileOf? a = if a ∈ T.inner then some (Int64.ofNat (T.tile a)) else none := by
  rw [tileOf?,h.innerIndex small ha]
  split
  · rename_i mem
    have lt : T.inner.idxOf a < T.inner.length := idxOf_lt_length_of_mem mem
    have found := T.tileAt (j := T.inner.idxOf a) (a := a) (by simp [getElem?_eq_getElem lt])
    simp [h.tiles,wordsGet,found]
  · rfl

theorem outerExtent {a n} (ha : a < rank) (rounds : n + T.tile a - 1 < wordBound) :
    d.outerExtent a (Int64.ofNat n) = Int64.ofNat ((n + T.tile a - 1) / T.tile a) := by
  have pos := T.tilePos a
  have hn : n < wordBound := by omega
  rw [Layout.outerExtent,h.tileOf small ha]
  by_cases mem : a ∈ T.inner
  · have static : Int64.ofNat n ≠ dynamicSize := fun same => notNegative hn (same ▸ by decide)
    simp only [if_pos mem,if_neg static]
    rw [addWords,show (1 : Int64) = Int64.ofNat 1 from rfl,subWords (by omega),
      divWords rounds (T.tileSmall a)]
  · simp [mem,T.tileOfFree mem]

theorem outerExtents {ns : List Nat} (length : ns.length = rank) (rounds : T.Rounds ns) : d.outerExtents (words ns) =
      words ((List.range rank).map fun a => (ns.getD a 0 + T.tile a - 1) / T.tile a) := by
  apply ext_getElem
  · simp [Layout.outerExtents,length]
  · intro a h1 _
    have ha : a < rank := by simpa [Layout.outerExtents,length] using h1
    have hn : a < ns.length := length ▸ ha
    have ext : ns.getD a 0 = ns[a] := by simp [getD_eq_getElem?_getD,hn]
    have here := h.outerExtent small ha (rounds a)
    rw [ext] at here
    simp [Layout.outerExtents,words,here,hn]

theorem interchanges {β} {vec : List β} (length : vec.length = rank) :
    ∃ out, interchange vec d.outer = .ok out ∧ out.map some = T.order.map (vec[·]?) := by
  rcases h.outer with outer | ⟨none,order⟩
  · rw [interchange,outer]
    split
    · rename_i empty
      have empty : T.order = [] := by simpa [words] using empty
      have zero := T.orderLength
      rw [empty,length_nil] at zero
      rw [empty,length_eq_zero_iff.mp (length.trans zero.symm)]
      exact ⟨[],rfl,rfl⟩
    · exact entriesAtOf (orderSmall small) fun a mem => length ▸ T.memOrder.mp mem
  · rw [none,order]
    refine ⟨vec,rfl,ext_getElem? fun a => ?_⟩
    rw [getElem?_map,getElem?_map]
    by_cases ha : a < rank <;> simp [ha,length]

theorem interchangedAt {β} {vec out : List β} (length : vec.length = rank) (ok : interchange vec d.outer = .ok out) :
    out.map some = T.order.map (vec[·]?) := by
  obtain ⟨_,ran,same⟩ := h.interchanges small length
  cases ok.symm.trans ran
  exact same

theorem interchanged {ns : List Nat} (length : ns.length = rank) :
    interchange (words ns) d.outer = .ok (words (T.order.map fun a => ns.getD a 0)) := by
  obtain ⟨out,ok,same⟩ := h.interchanges small (by rw [wordsLength,length] : (words ns).length = rank)
  rw [ok]
  congr 1
  apply map_injective_iff.mpr (Option.some_injective _)
  simp only [same,wordsGet]
  rw [words,map_map,map_map]
  refine map_congr_left fun a mem => ?_
  rw [getOfLt (length ▸ T.memOrder.mp mem)]
  rfl

theorem packedShapeOk {ns : List Nat} (length : ns.length = rank)
    (rounds : T.Rounds ns) : d.packedShape (words ns) = .ok (words (T.packed ns)) := by
  simp only [packedShape,wordsLength,length,h.valid,bindOfOk,h.outerExtents small length rounds]
  rw [h.interchanged small (by simp),bindOfOk,h.tiles,← wordsAppend,packed]
  congr 3
  apply map_congr_left
  intro a ha
  simp [getD_eq_getElem?_getD,T.memOrder.mp ha]

theorem packedShapeRuns {shape : List Int64} (length : shape.length = rank) : ∃ outer,
    d.packedShape shape = .ok (outer ++ d.tiles) ∧ outer.map some = T.order.map ((d.outerExtents shape)[·]?) := by
  obtain ⟨outer,moved,same⟩ := h.interchanges small
    (by simp [Layout.outerExtents,length] : (d.outerExtents shape).length = rank)
  exact ⟨outer,by rw [packedShape,length,h.valid,bindOfOk,moved,bindOfOk],same⟩

theorem outerPositions :
    ∃ pos, (if d.outer.isEmpty then (.ok ((range rank).map Int64.ofNat) : Outcome (List Int64))
        else Permutation.inverseVector d.outer) = .ok (words pos) ∧
      pos.length = rank ∧ ∀ a < rank, pos.getD a 0 = T.order.idxOf a := by
  have identity (order : T.order = range rank) (a : Nat) (ha : a < rank) :
      (range rank).getD a 0 = T.order.idxOf a := by
    have within : a < (range rank).length := by simpa using ha
    have place : (range rank).idxOf (range rank)[a] = a :=
      Nodup.idxOf_getElem nodup_range a within
    rw [order]
    simpa [getD_eq_getElem?_getD,ha] using place.symm
  rcases h.outer with outer | ⟨outer,order⟩
  · by_cases none : T.order = []
    · have zero : rank = 0 := by rw [← T.orderLength,none]; rfl
      refine ⟨[],by simp [outer,none,zero],by simp [zero],fun a ha => by omega⟩
    · have nonempty : (words T.order).isEmpty = false := by simpa [words] using none
      obtain ⟨pos,ok,length,entries⟩ := inverseStepOk (replicate T.order.length 0) (orderSmall small)
        (fun a ha => by simpa [T.orderLength] using T.memOrder.mp ha) T.orderNodup 0
      refine ⟨pos,?_,by simpa [T.orderLength] using length,fun a ha => ?_⟩
      · have zeros : replicate T.order.length (0 : Int64) = words (replicate T.order.length 0) := by
          simp [words]
        simp only [outer,nonempty,Bool.false_eq_true,if_false,Permutation.inverseVector,wordsLength,zeros,ok]
      · rw [entries a,if_pos (T.memOrder.mpr ha),Nat.zero_add]
  · exact ⟨range rank,by simp [outer,words],by simp,identity order⟩

theorem dividesIff {ns : List Nat} (length : ns.length = rank)
    (smallExtents : Small ns) : d.divides (words ns) = .ok true ↔ T.Divides ns := by
  obtain ⟨whole,answer,cuts⟩ := dividesAnswers (d := d)
    (by rwa [wordsLength,length] : (words ns).length < wordBound) (by rw [wordsLength,length]; exact h.valid)
  have cut (a : Nat) (ha : a < rank) : (∃ ext, entryAt? (words ns) (Int64.ofNat a) = some ext ∧
      ext ≠ dynamicSize ∧ ext % Int64.ofNat (T.tile a) = 0) ↔ T.tile a ∣ ns.getD a 0 := by
    have found : ns[a]? = some (ns.getD a 0) := getOfLt (length ▸ ha)
    have extSmall : ns.getD a 0 < wordBound := smallExtents _ (mem_of_getElem? found)
    have ext : entryAt? (words ns) (Int64.ofNat a) = some (Int64.ofNat (ns.getD a 0)) := by
      rw [entryAt?,if_neg (notNegative (ha.trans small)),toNatOfNat (ha.trans small),wordsGet,found]
      rfl
    have static : Int64.ofNat (ns.getD a 0) ≠ dynamicSize := fun same =>
      notNegative extSmall (same ▸ by decide)
    rw [ext,Nat.dvd_iff_mod_eq_zero]
    simp only [Option.some.injEq,exists_eq_left',ne_eq,static,not_false_eq_true,true_and,
      modWords extSmall (T.tileSmall a)]
    exact ofNatEqIff (n := 0) ((Nat.mod_le _ _).trans_lt extSmall) (by decide)
  rw [answer,Except.ok.injEq,cuts,Cuts,h.inner,h.tiles,T.tilesMap,words,words,map_map,zip_map',
    forall_mem_map]
  refine ⟨fun all a => ?_,fun all a mem => (cut a (T.innerLt a mem)).mpr (all a)⟩
  by_cases mem : a ∈ T.inner
  · exact (cut a (T.innerLt a mem)).mp (all a mem)
  · rw [T.tileOfFree mem]
    exact one_dvd _

theorem roundsOf {ns : List Nat} (length : ns.length = rank)
    (smallExtents : Small ns) (rounds : RoundsUp d (words ns)) : T.Rounds ns := by
  intro a
  have bound : wordBound = 2 ^ 63 := rfl
  by_cases ha : a < rank
  · have ext : (words ns)[a]? = some (Int64.ofNat (ns.getD a 0)) := by
      rw [wordsGet,getOfLt (length ▸ ha)]
      rfl
    have extSmall : ns.getD a 0 < wordBound := smallExtents _ (mem_of_getElem? (getOfLt (length ▸ ha)))
    by_cases mem : a ∈ T.inner
    · have fits := rounds a _ _ ext (by rw [h.tileOf small ha,if_pos mem])
      rw [toIntOfNat extSmall,toIntOfNat (T.tileSmall a)] at fits
      have pos := T.tilePos a
      omega
    · rw [T.tileOfFree mem]
      omega
  · have free : a ∉ T.inner := fun mem => ha (T.innerLt a mem)
    have zero : ns.getD a 0 = 0 := by
      rw [getD_eq_getElem?_getD,getElem?_eq_none (by omega)]
      rfl
    rw [T.tileOfFree free,zero]
    omega

end Small

theorem axisValue (h : d.Describes T) (small : rank + T.tiles.length < wordBound) {pos : List Nat}
    (posLength : pos.length = rank) (posAt : ∀ a < rank, pos.getD a 0 = T.order.idxOf a) {y : List Nat}
    (length : y.length = rank + T.tiles.length) {a} (ha : a < rank) :
    (d.axisExpr rank (words pos) a).eval (words y) = .ok (Int64.ofNat (T.flatAt y a)) := by
  have smallRank : rank < wordBound := by omega
  have outerAt : (words pos).getD a 0 = Int64.ofNat (T.order.idxOf a) := by
    have hp : a < pos.length := posLength ▸ ha
    rw [getD_eq_getElem?_getD,wordsGet,Tiling.getOfLt hp,posAt a ha]
    rfl
  have orderLt : T.order.idxOf a < rank := by
    have := idxOf_lt_length_of_mem (T.memOrder.mpr ha)
    rwa [T.orderLength] at this
  have outer : (Affine.Expr.dim (Int64.ofNat (T.order.idxOf a))).eval (words y) =
      .ok (Int64.ofNat (y.getD (T.order.idxOf a) 0)) := by
    rw [Affine.Expr.eval,entryAtWords _ (by omega),wordsGet,Tiling.getOfLt (by omega)]
    rfl
  by_cases mem : a ∈ T.inner
  · have lt : T.inner.idxOf a < T.inner.length := idxOf_lt_length_of_mem mem
    have ltTiles : T.inner.idxOf a < T.tiles.length := T.sameLength ▸ lt
    have tile : d.tiles.getD (T.inner.idxOf a) 0 = Int64.ofNat (T.tile a) := by
      have found := T.tileAt (j := T.inner.idxOf a) (a := a) (by simp [getElem?_eq_getElem lt])
      simp [h.tiles,getD_eq_getElem?_getD,wordsGet,found]
    have inner : (Affine.Expr.dim (Int64.ofNat rank + Int64.ofNat (T.inner.idxOf a))).eval (words y) =
        .ok (Int64.ofNat (y.getD (rank + T.inner.idxOf a) 0)) := by
      rw [addWords,Affine.Expr.eval,entryAtWords _ (by omega),wordsGet,Tiling.getOfLt (by omega)]
      rfl
    have nonzero : Int64.ofNat (T.tile a) ≠ 0 := by
      intro same
      have := ofNatInj (n := 0) (T.tileSmall a) (by decide) same
      exact absurd this (Nat.pos_iff_ne_zero.mp (T.tilePos a))
    simp only [axisExpr,outerAt,h.innerIndex smallRank ha,if_pos mem,tile]
    rw [Affine.Expr.evalAdd,Affine.Expr.evalMul nonzero,outer,inner]
    simp only [bindOfOk,pure,Except.pure,mulWords,addWords,Tiling.flatAt]
  · have none : y[rank + T.inner.idxOf a]? = none := by
      rw [idxOf_eq_length mem,T.sameLength,← length]
      simp
    simp only [axisExpr,outerAt,h.innerIndex smallRank ha,if_neg mem,outer,Tiling.flatAt,T.tileOfFree mem,Nat.mul_one]
    simp [getD_eq_getElem?_getD,none]

theorem indexMapOk (h : d.Describes T) (small : rank ≤ lengthLimit.toNatClampNeg) :
    ∃ m, d.indexMap (Int64.ofNat rank) = .ok m ∧ T.Maps m := by
  have limit : lengthLimit.toNatClampNeg = 2 ^ 44 := by decide
  have bound : wordBound = 2 ^ 63 := rfl
  have smallRank : rank < wordBound := by omega
  have few := fewTiles T
  obtain ⟨pos,posOk,posLength,posAt⟩ := h.outerPositions smallRank
  have countOk : listLength (Int64.ofNat rank) = .ok rank := by
    have le : Int64.ofNat rank ≤ lengthLimit := by
      rw [Int64.le_iff_toInt_le,toIntOfNat smallRank]
      have : lengthLimit.toInt = 2 ^ 44 := by decide
      omega
    simp only [listLength,ofNatNonneg smallRank,le,and_self,if_true,toNatOfNat smallRank]
  refine ⟨⟨Int64.ofNat rank + Int64.ofNat d.tiles.length,(range rank).map (d.axisExpr rank (words pos))⟩,?_,?_⟩
  · simp only [indexMap,h.valid,bindOfOk,countOk]
    split at posOk
    · rename_i none
      simp only [none,if_true]
      rw [Except.ok.inj posOk]
    · rename_i some
      simp only [some,Bool.false_eq_true,if_false,posOk,bindOfOk]
  · intro y length
    rw [eval,evalAllMap (v := fun a => Int64.ofNat (T.flatAt y a))]
    · simp [flat,words,map_map,Function.comp_def]
    · intro a ha
      exact h.axisValue (by omega) posLength posAt length (mem_range.mp ha)

end Describes

theorem describedShape {d : Layout} {flat : List Int64} (rank : flat.length ≤ lengthLimit.toNatClampNeg)
    (nonneg : ∀ n ∈ flat, 0 ≤ n) (valid : d.validate (Int64.ofNat flat.length) = .ok ()) (rounds : d.RoundsUp flat) :
    ∃ (ns : List Nat) (T : Tiling ns.length), flat = words ns ∧ Small ns ∧ d.Describes T ∧ T.Rounds ns ∧
      d.packedShape flat = .ok (words (T.packed ns)) := by
  have limit : lengthLimit.toNatClampNeg = 2 ^ 44 := by decide
  have bound : wordBound = 2 ^ 63 := rfl
  obtain ⟨ns,smallExtents,rfl⟩ := wordsOfNonneg nonneg
  rw [wordsLength] at rank valid
  have small : ns.length < wordBound := by omega
  obtain ⟨T,describes⟩ := describedOfValid small valid
  have roundsT := describes.roundsOf small rfl smallExtents rounds
  exact ⟨ns,T,rfl,smallExtents,describes,roundsT,describes.packedShapeOk small rfl roundsT⟩

end Layout
end TileLower

import TileLower.Proofs.Propagations

/-!
Pads. If no tiled axis is padded, padding what was unpacked is the same as unpacking what was padded. Main statement:
`Propagation.throughPadRefines`.
-/
namespace TileLower

open Memory Step List Int64

open Box (Inside grid)

theorem wordsInjWide {ms ns} (hm : ∀ m ∈ ms, m < 2 * wordBound) (hn : ∀ n ∈ ns, n < 2 * wordBound)
    (same : words ms = words ns) : ms = ns := by
  have length : ms.length = ns.length := by simpa using congrArg List.length same
  refine ext_getElem length fun a ha hb => ?_
  have at_ := congrArg (·[a]?) same
  simp only [wordsGet,getElem?_eq_getElem ha,getElem?_eq_getElem hb,Option.map_some,Option.some.injEq] at at_
  have bits := congrArg (fun w : Int64 => w.toBitVec.toNat) at_
  simp only [toBitVec_ofNat',BitVec.toNat_ofNat] at bits
  have := hm _ (getElem_mem ha)
  have := hn _ (getElem_mem hb)
  rw [wordBound] at *
  omega

theorem Word.roundsToNone {x} (le : x ≤ 0) {n} (pos : 0 < n) (small : n < wordBound) :
    (x + ofNat n - 1) / ofNat n ≤ 0 := by
  have tile := toIntOfNat small
  have low : -2 ^ 63 ≤ x.toInt := by simpa using x.minValue_le_toInt
  rw [le_iff_toInt_le,toInt_zero] at le
  refine divNonpos ?_ small
  rw [wordBound] at small
  have sum : (x.toInt + n).bmod (2 ^ 64) = x.toInt + n := Int.bmod_eq_of_le (by omega) (by omega)
  rw [toInt_sub,toInt_add,tile,toInt_one,sum,Int.bmod_eq_of_le (by omega) (by omega)]
  omega

namespace Box

def shift (low is : List Nat) : List Nat := is.zipWith (· + ·) low

theorem shiftLength {low is : List Nat} (same : low.length = is.length) : (shift low is).length = is.length := by
  simp [shift,same]

theorem shiftInj {low is js : List Nat} (hi : is.length = low.length) (hj : js.length = low.length)
    (same : shift low is = shift low js) : is = js := by
  refine ext_getElem (hi.trans hj.symm) fun a ha hb => ?_
  have at_ := congrArg (·[a]?) same
  simpa [shift,getElem?_zipWith,ha,hb,hi ▸ ha] using at_

theorem shiftAppend {low low' is is' : List Nat} (same : is.length = low.length) :
    shift (low ++ low') (is ++ is') = shift low is ++ shift low' is' := zipWith_append same

theorem shiftMap (as : List Nat) (f g : Nat → Nat) : shift (as.map f) (as.map g) = as.map fun a => g a + f a := by
  rw [shift,zipWith_map,zipWith_self]

theorem memShift {low is n} (mem : n ∈ shift low is) : ∃ i l, i ∈ is ∧ l ∈ low ∧ n = i + l := by
  obtain ⟨a,at_⟩ := mem_iff_getElem?.mp mem
  obtain ⟨i,l,hi,hl,rfl⟩ := getElem?_zipWith_eq_some.mp at_
  exact ⟨i,l,mem_of_getElem? hi,mem_of_getElem? hl,rfl⟩

section Larger

variable {low ns ms : List Nat} (length : low.length = ns.length)
  (within : ∀ is, Inside is ns → Inside (shift low is) ms)

include length within

theorem shiftExtent (pos : ∀ n ∈ ns, 0 < n) (a : Nat) : ns.getD a 0 ≤ ms.getD a 0 := by
  by_cases ha : a < ns.length
  · have last : Inside (ns.map (· - 1)) ns := by
      refine forall₂_map_left_iff.mpr (forall₂_same.mpr fun n mem => ?_)
      exact Nat.sub_lt (pos n mem) Nat.zero_lt_one
    have inside := within _ last
    have same : ms.length = ns.length := by rw [← inside.length_eq,shiftLength (by simp [length]),length_map]
    have lt := (insideIff.mp inside).2 a (ms.getD a 0) (Tiling.getOfLt (same ▸ ha))
    have at_ : (shift low (ns.map (· - 1))).getD a 0 = ns.getD a 0 - 1 + low.getD a 0 := by
      simp [shift,length ▸ ha,ha]
    omega
  · rw [getD_eq_default _ _ (Nat.le_of_not_lt ha)]
    exact Nat.zero_le _

theorem shiftProduct : ns.prod ≤ ms.prod := by
  have once : ((grid ns).map (shift low)).Nodup := by
    refine (gridNodup ns).map_on fun x hx y hy same => ?_
    exact shiftInj ((memGrid.mp hx).length_eq.trans length.symm) ((memGrid.mp hy).length_eq.trans length.symm) same
  have inside : (grid ns).map (shift low) ⊆ grid ms := by
    intro y hy
    obtain ⟨x,hx,rfl⟩ := mem_map.mp hy
    exact memGrid.mpr (within x (memGrid.mp hx))
  simpa [gridLength] using (once.subperm inside).length_le

end Larger

end Box

open Box (shift)

namespace Tiling

variable {rank : Nat} (T : Tiling rank)

def padding (low : List Nat) : List Nat := T.order.map (low.getD · 0) ++ T.tiles.map fun _ => 0

theorem paddingLength (low : List Nat) : (T.padding low).length = rank + T.tiles.length := by
  simp [padding,T.orderLength]

theorem blockedShift {low x : List Nat} (lengthLow : low.length = rank) (length : x.length = rank)
    (free : ∀ a ∈ T.inner, low.getD a 0 = 0) : T.blocked (shift low x) = shift (T.padding low) (T.blocked x) := by
  have at_ {a : Nat} (ha : a < rank) : (shift low x).getD a 0 = x.getD a 0 + low.getD a 0 := by
    simp [shift,length ▸ ha,lengthLow ▸ ha]
  have zeros : T.tiles.map (fun _ => 0) = T.inner.map fun _ => 0 := by
    rw [map_const',map_const',T.sameLength]
  rw [blocked,blocked,padding,zeros,Box.shiftAppend (by simp),Box.shiftMap,Box.shiftMap]
  congr 1
  · refine map_congr_left fun a mem => ?_
    rw [at_ (T.memOrder.mp mem)]
    by_cases inner : a ∈ T.inner
    · rw [free a inner,Nat.add_zero,Nat.add_zero]
    · rw [T.tileOfFree inner,Nat.div_one,Nat.div_one]
  · refine map_congr_left fun a mem => ?_
    rw [at_ (T.innerLt a mem),free a mem,Nat.add_zero,Nat.add_zero]

end Tiling

namespace NdArray

variable {α : Type} [Scalar α] {rank : Nat} {T : Tiling rank} {ns ms low : List Nat}

theorem paddedUnpacked {a b : NdArray α} {x p} (lengthN : ns.length = rank) (lengthM : ms.length = rank)
    (lengthLow : low.length = rank) (free : ∀ i ∈ T.inner, low.getD i 0 = 0) (divides : T.Divides ns)
    (within : ∀ is, Inside is ns → Inside (shift low is) ms) (full : a.Full ms) (fullB : b.Full (T.packed ms))
    (blank : ∀ is, Inside is ms → a.cell ms is = p) (blankB : ∀ y, Inside y (T.packed ms) → b.cell (T.packed ms) y = p) :
    (b.putAll (shift (T.padding low)) x (T.packed ms) (grid (T.packed ns))).unpacked T ms a.type =
      a.putAll (shift low) (fun is => x (T.blocked is)) ms (grid ns) := by
  have length {is : List Nat} (inside : Inside is ns) : is.length = rank := inside.length_eq.trans lengthN
  have lengthB {y : List Nat} (inside : Inside y (T.packed ns)) : y.length = (T.padding low).length := by
    rw [inside.length_eq,T.packedLength,T.paddingLength]
  have comes {y : List Nat} (inside : Inside y (T.packed ns)) : ∃ js, Inside js ns ∧ T.blocked js = y ∧
      shift (T.padding low) y = T.blocked (shift low js) := by
    have flat := T.flatInside lengthN divides inside
    have back := T.blockedFlat (T.insideTiles inside)
    exact ⟨_,flat,back,by rw [T.blockedShift lengthLow (length flat) free,back]⟩
  have withinB (y : List Nat) (mem : y ∈ grid (T.packed ns)) : Inside (shift (T.padding low) y) (T.packed ms) := by
    obtain ⟨js,inside,-,same⟩ := comes (Box.memGrid.mp mem)
    exact same ▸ T.blockedInside lengthM (within js inside)
  have withinA (is : List Nat) (mem : is ∈ grid ns) : Inside (shift low is) ms := within is (Box.memGrid.mp mem)
  obtain ⟨fullP,typeP⟩ := full.putAll (shift low) (fun is => x (T.blocked is)) (grid ns)
  refine Full.ext (tabulateFull _ full.dims full.small full.fits) fullP typeP.symm fun is inside => ?_
  have blocked := T.blockedInside lengthM inside
  rw [unpacked,tabulateCell _ inside]
  by_cases source : ∃ js, Inside js ns ∧ shift low js = is
  · obtain ⟨js,here,rfl⟩ := source
    have at_ : shift (T.padding low) (T.blocked js) = T.blocked (shift low js) :=
      (T.blockedShift lengthLow (length here) free).symm
    have hereB := T.blockedInside lengthN here
    rw [full.putAllAt withinA ⟨js,Box.memGrid.mpr here,rfl⟩ fun js' mem same => ?_,
      fullB.putAllAt withinB ⟨T.blocked js,Box.memGrid.mpr hereB,at_⟩ fun y mem same => ?_]
    · exact congrArg x (Box.shiftInj (lengthB (Box.memGrid.mp mem)) (lengthB hereB) (same.trans at_.symm))
    · have length' := length (Box.memGrid.mp mem)
      rw [Box.shiftInj (length'.trans lengthLow.symm) ((length here).trans lengthLow.symm) same]
  · rw [full.putAllOther withinA inside fun js mem same => source ⟨js,Box.memGrid.mp mem,same⟩,blank is inside,
      fullB.putAllOther withinB blocked fun y mem same => ?_,blankB _ blocked]
    obtain ⟨js,here,-,at_⟩ := comes (Box.memGrid.mp mem)
    refine source ⟨js,here,?_⟩
    have lengthS : (shift low js).length = rank := (within js here).length_eq.trans lengthM
    rw [← T.flatBlocked lengthS,← at_,same,T.flatBlocked (inside.length_eq.trans lengthM)]

def written (a : NdArray α) (i : Nat) (v : α) : NdArray α := ⟨a.type,a.data.setIfInBounds i v⟩

omit [Scalar α] in
theorem getWritten {a : NdArray α} {is js i} (v : α) (dims : a.type.dims = words ns) (small : Small ns)
    (fits : ns.prod < wordBound) (hi : Inside is ns) (hj : Inside js ns)
    (placed : (do a.place (← a.offset (words is))) = .ok i) :
    (a.written i v).get (words js) = if js = is then .ok v else a.get (words js) := by
  have reads (c : NdArray α) (same : c.type = a.type) : c.get (words js) = Outcome.ofOption c.data[position ns js]? :=
    getAt ((positionLt hj).trans fits) (offsetAt (same ▸ dims) small hj)
  rw [offsetAt dims small hi,Outcome.bindOfOk,placeAt ((positionLt hi).trans fits)] at placed
  obtain ⟨range,rfl⟩ := placed
  rw [reads a rfl,reads (a.written _ v) rfl,written,Array.getElem?_setIfInBounds]
  by_cases same : js = is
  · rw [if_pos (by rw [same]),if_pos range,if_pos same]
    rfl
  · rw [if_neg fun eq => same (positionInj hj hi eq.symm),if_neg same]

end NdArray

namespace Eval

variable {α : Type} {s t : Machine α} {source dest : Ref}

/- A loop that writes elements of one array. What is left at a vector is the last write to it. -/
section Stores

variable {ι : Type} {ns : List Nat} {f : ι → Exec α Unit} (place : ι → List Nat) (value : ι → Outcome α)

def StoresAt (f : ι → Exec α Unit) (place : ι → List Nat) (value : ι → Outcome α) (dest : Ref) (i : ι)
    (s : Machine α) : Prop :=
  ∀ t, f i s = .ok () t → ∃ x, value i = .ok x ∧ store dest (words (place i)) x s = .ok () t

theorem alongReads {is} (Inv : Machine α → Prop)
    (keeps : ∀ s b, Inv s → b.type = (s.arrayAt dest).type → Inv (s.withArray dest b))
    (stores : ∀ i ∈ is, ∀ s, Inv s → StoresAt f place value dest i s) (valid : dest < s.memory.size)
    (dims : (s.arrayAt dest).type.dims = words ns) (small : Small ns) (fits : ns.prod < wordBound)
    (inside : ∀ i ∈ is, Inside (place i) ns) {js} (at_ : Inside js ns) {v} (agree : ∀ i ∈ is, place i = js → value i = v)
    (inv : Inv s) (ok : Box.along is f s = .ok () t) :
    (t.arrayAt dest).get (words js) = if ∃ i ∈ is, place i = js then v else (s.arrayAt dest).get (words js) := by
  induction is generalizing s with
  | nil =>
    cases ok
    simp
  | cons i is ih =>
    obtain ⟨storesHere,storesLater⟩ := forall_mem_cons.mp stores
    obtain ⟨insideHere,insideLater⟩ := forall_mem_cons.mp inside
    obtain ⟨agreeHere,agreeLater⟩ := forall_mem_cons.mp agree
    obtain ⟨_,u,first,rest⟩ := bindOk.mp ok
    obtain ⟨x,found,stored⟩ := storesHere s inv u first
    obtain ⟨k,placed,same⟩ := storeOk.mp stored
    obtain rfl : u = s.withArray dest ((s.arrayAt dest).written k x) := same
    have array := s.withArrayHere ((s.arrayAt dest).written k x) valid
    rw [ih storesLater (by simpa using valid) (by rw [array]; exact dims) insideLater agreeLater
      (keeps s ((s.arrayAt dest).written k x) inv rfl) rest,array,NdArray.getWritten x dims small fits insideHere at_ placed]
    by_cases later : ∃ i ∈ is, place i = js
    · rw [if_pos later,if_pos (by obtain ⟨i,mem,same⟩ := later; exact ⟨i,.tail _ mem,same⟩)]
    · rw [if_neg later]
      by_cases here : js = place i
      · rw [if_pos here,if_pos ⟨i,.head _,here.symm⟩,← agreeHere here.symm,found]
      · rw [if_neg here,if_neg]
        rintro ⟨j,mem,same⟩
        rcases mem_cons.mp mem with rfl | mem
        · exact here same.symm
        · exact later ⟨j,mem,same⟩

end Stores

def padPoint (low : List Int64) (source dest : Ref) (idx : List Int64) : Exec α Unit := do
  let padded ← lift (padIndex low idx)
  store dest padded (← load source idx)

theorem padIndexWords {low is : List Nat} (same : low.length = is.length) :
    padIndex (words low) (words is) = .ok (words (shift low is)) := by
  have short : ¬ (words low).length < (words is).length := by simp [same]
  have none : (words low).length - (words is).length = 0 := by simp [same]
  rw [padIndex,if_neg short,none,replicate_zero,append_nil,words,words,words,shift,
    zipWith_map,map_zipWith]
  simp only [Word.addWords]

theorem padIndexOrigin {low lo : List Int64} {ns : List Nat} (same : lo.length = ns.length)
    (ok : padIndex low (words (ns.map fun _ => 0)) = .ok lo) : low.length = ns.length ∧ low = lo := by
  rw [padIndex] at ok
  split at ok
  · exact absurd ok Outcome.abortOk
  · rename_i long
    cases ok
    have length : low.length = ns.length := by
      simp at same long
      omega
    refine ⟨length,?_⟩
    refine ext_getElem (by simp [length]) fun a ha hb => ?_
    simp [words,length]

theorem padPointOk {low idx} (ok : padPoint low source dest idx s = .ok () t) : ∃ padded x,
    padIndex low idx = .ok padded ∧ (s.arrayAt source).get idx = .ok x ∧ store dest padded x s = .ok () t := by
  obtain ⟨padded,index,ok⟩ := Step.read liftOk ok
  obtain ⟨x,found,ok⟩ := Step.read liftOk ok
  exact ⟨padded,x,index,found,ok⟩

variable {ns ms : List Nat}

theorem padLoopRun [Scalar α] {low : List Nat} {x} (small : Small ns) (length : low.length = ns.length)
    (apart : source ≠ dest) (valid : dest < s.memory.size) (full : (s.arrayAt dest).Full ms)
    (reads : ∀ is, Inside is ns → (s.arrayAt source).get (words is) = .ok (x is))
    (within : ∀ is, Inside is ns → Inside (shift low is) ms) :
    Box.each (words ns) (padPoint (words low) source dest) s =
      .ok () (s.withArray dest ((s.arrayAt dest).putAll (shift low) x ms (grid ns))) := by
  rw [Box.eachAlong small]
  refine (congrArg _ (s.withArraySelf dest).symm).trans (alongRun (grid ns) _ (s.withArray dest ·)
    (fun b is => b.put ms (shift low is) (x is)) (fun b => b.Full ms) (fun is mem b full => ⟨?_,full.put _ _⟩) full)
  have inside := Box.memGrid.mp mem
  have index : lift (padIndex (words low) (words is)) (s.withArray dest b) =
      .ok (words (shift low is)) (s.withArray dest b) :=
    liftOk.mpr ⟨padIndexWords (length.trans inside.length_eq.symm),rfl⟩
  have loaded : load source (words is) (s.withArray dest b) = .ok (x is) (s.withArray dest b) := by
    rw [load,bindOfOk (arrayRun source _),s.withArrayOther b valid apart]
    exact liftOk.mpr ⟨reads is inside,rfl⟩
  rw [padPoint,bindOfOk index,bindOfOk loaded,storeWith valid full (within is inside)]

theorem padLoopOk {low} (small : Small ns) (pos : ∀ n ∈ ns, 0 < n) (apart : source ≠ dest) (valid : dest < s.memory.size)
    (dims : (s.arrayAt dest).type.dims = words ms) (smallM : Small ms) (length : ns.length = ms.length)
    (ok : Box.each (words ns) (padPoint low source dest) s = .ok () t) :
    ∃ lo, low = words lo ∧ Small lo ∧ lo.length = ns.length ∧ ∀ is, Inside is ns →
      (∃ x, (s.arrayAt source).get (words is) = .ok x) ∧ Inside (shift lo is) ms := by
  rw [Box.eachAlong small] at ok
  obtain ⟨-,steps⟩ := alongWrites (fun is _ s t ok => by
    obtain ⟨_,_,-,-,stored⟩ := padPointOk ok
    exact storeWrites stored) valid ok
  have point (is : List Nat) (inside : Inside is ns) : ∃ padded js, padIndex low (words is) = .ok padded ∧
      (∃ x, (s.arrayAt source).get (words is) = .ok x) ∧ padded.length = ms.length ∧ Inside js ms ∧
      padded = words js := by
    obtain ⟨u,w,before,ran⟩ := steps is (Box.memGrid.mpr inside)
    obtain ⟨padded,x,index,read,stored⟩ := padPointOk ran
    obtain ⟨b,rfl,type,-⟩ := before
    rw [s.withArrayOther b valid apart] at read
    obtain ⟨k,placed,-⟩ := storeOk.mp stored
    rw [s.withArrayHere b valid] at placed
    obtain ⟨o,offset,-⟩ := Outcome.bindOk.mp placed
    rw [NdArray.offset] at offset
    split at offset
    · cases offset
    · rename_i same
      have same : padded.length = ms.length := by
        rw [Decidable.not_not,ValueType.rank,type,dims,wordsLength] at same
        exact same
      split at offset
      · rename_i found
        rw [type,dims] at found
        obtain ⟨js,at_,rfl⟩ := NdArray.offsetCoordinates same smallM found
        exact ⟨_,js,index,⟨x,read⟩,same,at_,rfl⟩
      · cases offset
  /- The first vector of the source is written where the padding points. -/
  obtain ⟨_,lo,index,-,same,insideLo,rfl⟩ := point _ (Box.insideZero pos)
  obtain ⟨lengthLo,rfl⟩ := padIndexOrigin (same.trans length.symm) index
  refine ⟨lo,rfl,NdArray.insideSmall insideLo smallM,by simpa using lengthLo,fun is inside => ?_⟩
  obtain ⟨_,js,index,read,-,insideJs,rfl⟩ := point is inside
  rw [padIndexWords (by simpa [inside.length_eq] using lengthLo)] at index
  refine ⟨read,?_⟩
  rwa [wordsInjWide (fun n mem => ?_) (fun n mem => ?_) (Except.ok.inj index)]
  · obtain ⟨i,l,hi,hl,rfl⟩ := Box.memShift mem
    have := NdArray.insideSmall inside small i hi
    have := NdArray.insideSmall insideLo smallM l hl
    omega
  · have := NdArray.insideSmall insideJs smallM n mem
    omega

theorem unpackLoopReads {rank} {T : Tiling rank} {m : AffineMap} (rounds : T.Rounds ns) (valid : dest < s.memory.size)
    (apart : source ≠ dest) (map : T.Maps m) (length : ns.length = rank) (small : Small ns) (divides : T.Divides ns)
    (fits : ns.prod < wordBound) (dims : (s.arrayAt dest).type.dims = words ns)
    (ok : Box.each (words (T.packed ns)) (unpackPoint m source dest) s = .ok () t) :
    Writes dest s t ∧ (∀ y, Inside y (T.packed ns) → ∃ x, (s.arrayAt source).get (words y) = .ok x) ∧
      ∀ is, Inside is ns → (t.arrayAt dest).get (words is) = (s.arrayAt source).get (words (T.blocked is)) := by
  rw [Box.eachAlong (T.packedSmall rounds)] at ok
  /- As the tiles divide, every blocked vector has a flat one. -/
  have point (y : List Nat) (inside : Inside y (T.packed ns)) (u w : Machine α)
      (type : (u.arrayAt dest).type = (s.arrayAt dest).type) (ran : unpackPoint m source dest (words y) u = .ok () w) :
      ∃ x, (u.arrayAt source).get (words y) = .ok x ∧ store dest (words (T.flat y)) x u = .ok () w := by
    obtain ⟨_,eval,stored⟩ := unpackPointOk ran
    rw [map y (inside.length_eq.trans (T.packedLength ns))] at eval
    cases eval
    rwa [if_pos (NdArray.inBoundsInside (type ▸ dims) small (T.flatInside length divides inside))] at stored
  obtain ⟨writes,steps⟩ := alongWrites (fun y _ s t ok => unpackPointWrites ok) valid ok
  refine ⟨writes,fun y inside => ?_,fun is inside => ?_⟩
  · obtain ⟨u,w,before,ran⟩ := steps y (Box.memGrid.mpr inside)
    obtain ⟨x,found,-⟩ := point y inside u w (before.same valid).1 ran
    obtain ⟨b,rfl,-⟩ := before
    rw [s.withArrayOther b valid apart] at found
    exact ⟨x,found⟩
  · let Inv (u : Machine α) : Prop := dest < u.memory.size ∧ (u.arrayAt dest).type = (s.arrayAt dest).type ∧
      u.arrayAt source = s.arrayAt source
    have keeps (u : Machine α) (b : NdArray α) (inv : Inv u) (type : b.type = (u.arrayAt dest).type) :
        Inv (u.withArray dest b) := by
      obtain ⟨within,same,source⟩ := inv
      refine ⟨by simpa using within,?_,?_⟩
      · rw [u.withArrayHere b within,type,same]
      · rw [u.withArrayOther b within apart,source]
    have read := alongReads T.flat (fun y => (s.arrayAt source).get (words y)) Inv keeps
      (fun y mem u inv w ran => inv.2.2 ▸ point y (Box.memGrid.mp mem) u w inv.2.1 ran) valid dims small fits
      (fun y mem => T.flatInside length divides (Box.memGrid.mp mem)) inside
      (v := (s.arrayAt source).get (words (T.blocked is)))
      (fun y mem same => by rw [← same,T.blockedFlat (T.insideTiles (Box.memGrid.mp mem))]) ⟨valid,rfl,rfl⟩ ok
    rw [read,if_pos ⟨T.blocked is,Box.memGrid.mpr (T.blockedInside length inside),
      T.flatBlocked (inside.length_eq.trans length)⟩]

end Eval

namespace Layout

variable {d : Layout}

section Shapes

variable {shape blocked : List Int64} (small : shape.length < wordBound) (ok : d.packedShape shape = .ok blocked)

include small ok

theorem packedShapeAt : ∃ (T : Tiling shape.length) (outer : List Int64), d.Describes T ∧
    blocked = outer ++ d.tiles ∧ outer.map some = T.order.map ((d.outerExtents shape)[·]?) := by
  obtain ⟨_,valid,-⟩ := Outcome.bindOk.mp ok
  obtain ⟨T,describes⟩ := describedOfValid small valid
  obtain ⟨outer,ran,same⟩ := describes.packedShapeRuns small rfl
  cases ok.symm.trans ran
  exact ⟨T,outer,describes,rfl,same⟩

theorem packedShapeLength : blocked.length = shape.length + d.tiles.length := by
  obtain ⟨T,outer,-,rfl,same⟩ := packedShapeAt small ok
  have length := congrArg List.length same
  rw [length_map,length_map,T.orderLength] at length
  rw [length_append,length]

theorem packedShapeMem {a ext} (at_ : shape[a]? = some ext) : d.outerExtent a ext ∈ blocked := by
  obtain ⟨T,outer,-,rfl,same⟩ := packedShapeAt small ok
  have ha : a < shape.length := (List.getElem?_eq_some_iff.mp at_).1
  have found : some (d.outerExtent a ext) ∈ outer.map some := by
    rw [same]
    refine mem_map.mpr ⟨a,T.memOrder.mpr ha,?_⟩
    simp [outerExtents,getElem?_mapIdx,at_]
  obtain ⟨_,mem,same⟩ := mem_map.mp found
  cases same
  exact mem_append_left _ mem

theorem packedShapeEmpty (empty : shape.any (· ≤ 0) = true) : blocked.any (· ≤ 0) = true := by
  obtain ⟨T,-,describes,-⟩ := packedShapeAt small ok
  obtain ⟨ext,mem,le⟩ := any_eq_true.mp empty
  have le : ext ≤ 0 := of_decide_eq_true le
  obtain ⟨a,at_⟩ := mem_iff_getElem?.mp mem
  have ha : a < shape.length := (List.getElem?_eq_some_iff.mp at_).1
  refine any_eq_true.mpr ⟨_,packedShapeMem small ok at_,decide_eq_true ?_⟩
  rw [outerExtent,describes.tileOf small ha]
  split
  · exact le
  · rename_i tile tiled
    split at tiled
    · cases tiled
      split
      · exact le
      · exact Word.roundsToNone le (T.tilePos a) (T.tileSmall a)
    · cases tiled

theorem packedShapeZero (zero : 0 ∈ shape) : 0 ∈ blocked := by
  obtain ⟨T,-,describes,-⟩ := packedShapeAt small ok
  obtain ⟨a,at_⟩ := mem_iff_getElem?.mp zero
  have ha : a < shape.length := (List.getElem?_eq_some_iff.mp at_).1
  have extent := describes.outerExtent (n := 0) small ha
    (Nat.lt_of_le_of_lt (by rw [Nat.zero_add]; exact Nat.sub_le ..) (T.tileSmall a))
  rw [Nat.zero_add,Nat.div_eq_of_lt (Nat.sub_lt (T.tilePos a) Nat.zero_lt_one)] at extent
  have mem := packedShapeMem small ok at_
  rwa [show (0 : Int64) = ofNat 0 from rfl,extent] at mem

end Shapes

end Layout

namespace Eval

variable {α : Type} [Scalar α] {g : Graph} {id : OpId} {s t : Machine α} {source : Ref} {p : α} {out : NdArray α}

namespace Machine

omit [Scalar α]

def grown (s : Machine α) (a : NdArray α) : Machine α := { s with memory := s.memory.push a }

theorem arrayAtGrown (s : Machine α) (a : NdArray α) (r : Ref) :
    (s.grown a).arrayAt r = if r = s.memory.size then a else s.arrayAt r := s.arrayAtFresh (.argument 0 0) a r

end Machine

theorem evalOpPad (kind : (g.op id).kind = padKind) : (evalOp g id : Exec α Unit) = evalPad g id := by
  simp only [evalOp,kind]
  rfl

omit [Scalar α] in
structure PadStarts (g : Graph) (id : OpId) (s : Machine α) (source : Ref) (p : α) (out : NdArray α) : Prop where
  source : ∃ v, (g.op id).operands[0]? = some (some v) ∧ s.env v = some source
  value : ∃ w r, (g.op id).operands[1]? = some (some w) ∧ s.env w = some r ∧ (s.arrayAt r).data[0]? = some p
  result : 0 < (g.op id).results.length
  filled : NdArray.filled (g.typeOf (.result id 0)) p = .ok out

omit [Scalar α] in
theorem evalPadOk : evalPad g id s = .ok () t ↔ ∃ source p out, PadStarts g id s source p out ∧ ∃ u,
    Box.each ((s.grown out).arrayAt source).type.dims (padPoint (padLow (g.op id)) source s.memory.size)
      (s.grown out) = .ok () u ∧ t = u.bound (.result id 0) s.memory.size := by
  constructor
  · intro ok
    obtain ⟨x,atSource,ok⟩ := Step.read liftOk ok
    obtain ⟨source,_,ran,ok⟩ := bindOk.mp ok
    obtain ⟨⟨v,rfl,bound⟩,rfl⟩ := valueOk.mp ran
    obtain ⟨y,atValue,ok⟩ := Step.read liftOk ok
    obtain ⟨r,_,ran,ok⟩ := bindOk.mp ok
    obtain ⟨⟨w,rfl,bound'⟩,rfl⟩ := valueOk.mp ran
    obtain ⟨z,result,ok⟩ := Step.read liftOk ok
    obtain ⟨lt,rfl⟩ := Graph.resultAtOk.mp result
    obtain ⟨p,first,ok⟩ := Step.read liftOk ok
    obtain ⟨out,filled,ok⟩ := Step.read liftOk ok
    rw [bindOfOk (allocateRun out _),bindOfOk (arrayRun source _)] at ok
    obtain ⟨_,u,loop,ok⟩ := bindOk.mp ok
    obtain ⟨z,found,ok⟩ := Step.read liftOk ok
    cases result.symm.trans found
    cases ok
    exact ⟨source,p,out,⟨⟨v,Graph.operandAtOk.mp atSource,bound⟩,
      ⟨w,r,Graph.operandAtOk.mp atValue,bound',Outcome.ofOptionOk.mp first⟩,lt,filled⟩,u,loop,rfl⟩
  · rintro ⟨source,p,out,⟨⟨v,atSource,bound⟩,⟨w,r,atValue,bound',first⟩,lt,filled⟩,u,loop,rfl⟩
    have named (s : Machine α) : result g id 0 s = .ok (.result id 0) s :=
      liftOk.mpr ⟨Graph.resultAtOk.mpr ⟨lt,rfl⟩,rfl⟩
    have number : firstOf r s = .ok p s := by
      rw [firstOf,bindOfOk (arrayRun r s)]
      exact liftOk.mpr ⟨Outcome.ofOptionOk.mpr first,rfl⟩
    have made : lift (NdArray.filled (g.typeOf (.result id 0)) p) s = .ok out s := liftOk.mpr ⟨filled,rfl⟩
    rw [evalPad,bindOfOk (operandRun atSource s),bindOfOk (valueRun bound),
      bindOfOk (operandRun atValue s),bindOfOk (valueRun bound'),bindOfOk (named s),
      bindOfOk number,bindOfOk made,bindOfOk (allocateRun out s),bindOfOk (arrayRun source _)]
    exact (bindOfOk loop _).trans (bindOfOk (named u) _)

section Starts

variable (starts : PadStarts g id s source p out) (valid : source < s.memory.size)

include starts valid

omit [Scalar α] in
theorem PadStarts.runEmpty (empty : (s.arrayAt source).type.dims.any (· ≤ 0) = true) :
    evalPad g id s = .ok () (s.bindFresh (.result id 0) out) := by
  refine evalPadOk.mpr ⟨source,p,out,starts,s.grown out,?_,rfl⟩
  rw [s.arrayAtGrown,if_neg (valid.ne),Box.each,if_pos empty]
  rfl

theorem PadStarts.run {low ns ms : List Nat} {x} (dims : (s.arrayAt source).type.dims = words ns) (small : Small ns)
    (isLow : padLow (g.op id) = words low) (length : low.length = ns.length) (full : out.Full ms)
    (reads : ∀ is, Inside is ns → (s.arrayAt source).get (words is) = .ok (x is))
    (within : ∀ is, Inside is ns → Inside (shift low is) ms) :
    evalPad g id s = .ok () (s.bindFresh (.result id 0) (out.putAll (shift low) x ms (grid ns))) := by
  have old : (s.grown out).arrayAt source = s.arrayAt source := by rw [s.arrayAtGrown,if_neg (valid.ne)]
  have new : (s.grown out).arrayAt s.memory.size = out := by rw [s.arrayAtGrown,if_pos rfl]
  have loop : Box.each (words ns) (padPoint (words low) source s.memory.size) (s.grown out) =
      .ok () ((s.grown out).withArray s.memory.size (out.putAll (shift low) x ms (grid ns))) := by
    have loop := padLoopRun (x := x) small length (valid.ne)
      (show s.memory.size < (s.grown out).memory.size by simp [Machine.grown]) (new.symm ▸ full) (old.symm ▸ reads) within
    rwa [new] at loop
  exact evalPadOk.mpr ⟨source,p,out,starts,_,by rw [old,dims,isLow,loop],(s.withArrayFresh ..).symm⟩

end Starts

section Stages

open Propagation Relayout

variable {m : OpId} {v w : Value} {t flat : ValueType} {l : Layout} {b : Blanks} {ms : List Nat} {T : Tiling ms.length} {r : Ref}

omit [Scalar α] in
theorem padAt {value} {low high : Option (List Int64)} (here : g.IsAt m (padOp (some v) value t low high)) :
    (g.op m).kind = padKind ∧ (g.op m).operands = [some v, value] ∧ 0 < (g.op m).results.length ∧
      g.typeOf (.result m 0) = t ∧ padLow (g.op m) = low.getD [] := by
  obtain ⟨_,_,op⟩ := here
  refine ⟨by rw [op]; rfl,by rw [op]; rfl,by rw [op]; exact Nat.zero_lt_one,?_,?_⟩
  · rw [Graph.typeOf,Graph.slot,op]
    rfl
  · have found : (Attributes.ofList [(lowAttr, .ints low), (highAttr, .ints high)]).load? lowAttr =
        some (.ints low) := by
      simp [Attributes.ofList,OrderedMap.loadStore,lowAttr,highAttr]
    rw [padLow,op,padOp,Attributes.ints?,found]
    rfl

variable (empty : g.IsAt m (emptyOp flat))
  (unpack : g.IsAt (m + 1) (convertOp unpackKind (some v) (some (.result m 0)) flat l b)) (tensor : flat.isTensor = true)
  (kind : flat.withKind .tensor = flat) (describes : l.Describes T) (rank : ms.length ≤ lengthLimit.toNatClampNeg)
  (dims : flat.dims = words ms) (small : Small ms) (short : ms.prod ≤ lengthLimit.toNatClampNeg) (below : v.Below m)
  (bound : s.env v = some r) (valid : r < s.memory.size)

include empty unpack kind dims small short in
theorem emptyThen {a} (next : ∀ z : NdArray α, z.Full ms → z.type = flat → g.typeOf (.result m 0) = flat →
      evalUnpack g (m + 1) (s.bindFresh (.result m 0) z) =
        .ok () ((s.bindFresh (.result m 0) z).bindFresh (.result (m + 1) 0) a)) :
    Leads g [m, m + 1] m s (.result (m + 1) 0) a := by
  obtain ⟨z,first,fullZ,typeZ⟩ := emptyStage empty kind dims small short s
  have typeOf : g.typeOf (.result m 0) = flat := by
    obtain ⟨_,_,op⟩ := empty
    rw [Graph.typeOf,Graph.slot,op]
    exact kind
  have isUnpack : (g.op (m + 1)).kind = unpackKind := by
    obtain ⟨_,_,op⟩ := unpack
    rw [op]
    rfl
  have second := next z fullZ typeZ typeOf
  rw [← evalOpUnpack isUnpack] at second
  exact .after (evalEachOne first) (.bindFresh (Nat.le_refl m) s 0 z) (Nat.le_refl m) (.one second (Nat.le_succ m))

include empty unpack tensor kind describes rank dims small short below bound valid

theorem unpackNew (rounds : T.Rounds ms) (full : (s.arrayAt r).Full (T.packed ms)) :
    Leads g [m, m + 1] m s (.result (m + 1) 0) ((s.arrayAt r).unpacked T ms flat) := by
  refine emptyThen empty unpack kind dims small short fun z fullZ typeZ typeOf => ?_
  have gives := givesFresh s (.result m 0) z
  have extends_ := Extends.bindFresh (Nat.le_refl m) s 0 z
  have run := evalUnpackRun (s := s.bindFresh (.result m 0) z) (convertsAt unpack tensor describes) rank rfl rounds
    ((extends_.env v below).trans bound) gives.bound (fun buffer => by rw [typeOf,tensor] at buffer; cases buffer)
    (by rw [extends_.old r valid]; exact full) (by rw [gives.array]; exact fullZ)
  rwa [extends_.old r valid,gives.array,typeZ,Machine.delivered,typeOf,if_pos tensor] at run

theorem unpackNothing (none : ms.prod = 0) (nothing : (s.arrayAt r).type.dims.any (· ≤ 0) = true) :
    Leads g [m, m + 1] m s (.result (m + 1) 0) ⟨flat,#[]⟩ := by
  refine emptyThen empty unpack kind dims small short fun z fullZ typeZ typeOf => ?_
  obtain rfl : z = ⟨flat,#[]⟩ := by
    have size := fullZ.size
    rw [none] at size
    cases z
    exact congr (congrArg NdArray.mk typeZ) (Array.eq_empty_of_size_eq_zero size)
  let s1 := s.bindFresh (.result m 0) ⟨flat,#[]⟩
  have gives := givesFresh s (.result m 0) (⟨flat,#[]⟩ : NdArray α)
  have extends_ := Extends.bindFresh (Nat.le_refl m) s 0 (⟨flat,#[]⟩ : NdArray α)
  have converts := convertsAt unpack tensor describes
  obtain ⟨some,few⟩ := converts.result (typeOf ▸ tensor)
  have out := outputTensor (i := 0) (typeOf ▸ tensor) gives.bound some few
  have copy := givesFresh s1 (.result (m + 1) 0) (⟨flat,#[]⟩ : NdArray α)
  rw [gives.array] at out
  obtain ⟨_,-,loop⟩ := evalUnpackLoop converts rank ((extends_.env v below).trans bound) out
    (by rw [copy.array,ValueType.rank,dims,wordsLength])
  have old : (s1.bindFresh (.result (m + 1) 0) ⟨flat,#[]⟩).arrayAt r = s.arrayAt r :=
    ((Extends.bindFresh (le_rfl) s1 0 _).old r (valid.trans_le extends_.size)).trans
      (extends_.old r valid)
  rw [loop,old,Box.each,if_pos nothing]
  rfl

end Stages

end Eval

theorem ValueType.countZero {dims} (zero : 0 ∈ dims) : ValueType.count dims = 0 := by
  have fold (n : Int64) : dims.foldl (· * ·) n = 0 := by
    induction dims generalizing n with
    | nil => cases zero
    | cons d ds ih =>
      rcases mem_cons.mp zero with rfl | later
      · rw [foldl_cons,mul_zero]
        clear zero ih
        induction ds with
        | nil => rfl
        | cons d ds ih => rw [foldl_cons,zero_mul,ih]
      · exact ih later _
  exact fold 1

namespace Graph

def Typed (g : Graph) (v : Value) (t : ValueType) (_ : Nat) : Prop := g.Has v → t = g.typeOf v

open Eval in
theorem Orderly.suits {α} [Scalar α] {g : Graph} {id} (orderly : g.Orderly id)
    (has : ∀ v, some v ∈ (g.op id).operands → g.Has v) : Suits α (InPlace g) g.Typed g id where
  writable _ v at_ place := place.elim And.right fun ⟨isCopy,second⟩ => orderly.buffers isCopy v (second ▸ at_)
  few := .inl orderly.few
  filled _ _ _ made _ := (filledCounted made).1
  copied j i v t n at_ tensor copied typed within := by
    rw [orderly.copied j i v at_ tensor copied within]
    exact typed (has v (mem_of_getElem? at_))
  cast _ _ _ _ _ _ _ := rfl

end Graph

namespace Relayout

/-- An unpack of a tensor that has the blocked shape of what it is unpacked into, by tiles that divide that. -/
structure UnpacksWhole (g : Graph) (j : OpId) (v w : Value) : Prop where
  source : (g.op j).operands[0]? = some (some v)
  dest : (g.op j).operands[1]? = some (some w)
  tensor : (g.typeOf v).isTensor = true
  rank : (g.typeOf w).rank ≤ lengthLimit.toNatClampNeg
  shape : (layoutOf (g.op j)).packedShape (g.typeOf w).dims = .ok (g.typeOf v).dims
  divides : (layoutOf (g.op j)).divides (g.typeOf w).dims = .ok true

end Relayout

namespace Eval

open Relayout

variable {α : Type} {g : Graph} {j : OpId} {v w : Value} {s u u' : Machine α}

theorem Started.typed {memory args} (started : Started g memory args s) (v : Value) (r : Ref)
    (found : s.env v = some r) : g.Typed v (s.arrayAt r).type (s.arrayAt r).data.size := by
  obtain ⟨k,q,-,-,-,type,-⟩ := started.argument found
  exact fun _ => type

/- A loop over a box that need not be described by natural numbers. -/
theorem eachWrites {dims : List Int64} {f : List Int64 → Exec α Unit} {dest : Ref}
    (step : ∀ idx s t, f idx s = .ok () t → Writes dest s t) (valid : dest < u.memory.size)
    (ok : Box.each dims f u = .ok () u') : Writes dest u u' := by
  rw [Box.eachIndices] at ok
  exact (alongWrites (fun idx _ s t => step idx s t) valid ok).1

theorem unpackLeaves (source : (g.op j).operands[0]? = some (some v)) (dest : (g.op j).operands[1]? = some (some w))
    (kind : (g.op j).kind = unpackKind) [Scalar α] {i : Nat} {q : Ref} (has : g.Has (.result j i))
    (few : (g.op j).results.length < wordBound) (valid : ∀ v r, u.env v = some r → r < u.memory.size)
    (unbound : ∀ i, u.env (.result j i) = none) (ok : evalOp g j u = .ok () u')
    (bound : u'.env (.result j i) = some q) : (g.typeOf w).isTensor = true ∧ i = 0 ∧
      q = u.memory.size ∧ ∃ r o, u.env v = some r ∧ u.env w = some o ∧ r < u.memory.size ∧
        output g j (some w) 0 u = .ok u.memory.size (u.bindFresh (.result j 0) (u.arrayAt o)) := by
  rw [evalOpUnpack kind] at ok
  obtain ⟨_,_,r,o,source',dest',boundV,boundW⟩ := conversionReads ok
  cases source.symm.trans source'
  cases dest.symm.trans dest'
  have loop {p : Ref} {out : Machine α} (output : output g j (some w) 0 u = .ok p out) (within : p < out.memory.size) :
      Writes p out u' := by
    rw [evalUnpack,bindOfOk (operandRun source u),bindOfOk (valueRun boundV),
      bindOfOk (operandRun dest u),bindOfOk output,bindOfOk (arrayRun p out)] at ok
    obtain ⟨m,-,ok⟩ := Step.read liftOk ok
    rw [bindOfOk (arrayRun r _)] at ok
    exact eachWrites (fun _ _ _ => unpackPointWrites) within ok
  have tensor : (g.typeOf w).isTensor = true := by
    by_contra buffer
    obtain ⟨b,rfl,-⟩ := loop (outputPlace (Bool.eq_false_iff.mpr buffer) boundW) (valid w o boundW)
    rw [Machine.withArrayEnv,unbound] at bound
    cases bound
  have out := outputTensor (i := 0) tensor boundW ((Nat.zero_le i).trans_lt has) few
  obtain ⟨b,rfl,-⟩ := loop out (by simp)
  rw [Machine.withArrayEnv,u.bindFreshEnv] at bound
  by_cases zero : i = 0
  · rw [if_pos (by rw [zero])] at bound
    exact ⟨tensor,zero,(Option.some.inj bound).symm,r,o,boundV,boundW,valid v r boundV,out⟩
  · rw [if_neg fun same => zero (by cases same; rfl),unbound] at bound
    cases bound

theorem unpackLeavesReads (whole : UnpacksWhole g j v w) (kind : (g.op j).kind = unpackKind) [Scalar α] {r o}
    (boundV : u.env v = some r) (valid : r < u.memory.size)
    (out : output g j (some w) 0 u = .ok u.memory.size (u.bindFresh (.result j 0) (u.arrayAt o)))
    (typeV : (u.arrayAt r).type = g.typeOf v) (typeW : (u.arrayAt o).type = g.typeOf w)
    (results : 0 < (g.op j).results.length ∧ (g.op j).results.length < wordBound) {rank} {T : Tiling rank}
    {ns : List Nat} (length : ns.length = rank) (describes : (layoutOf (g.op j)).Describes T) (rounds : T.Rounds ns)
    (divides : T.Divides ns) (small : Small ns) (dims : (g.typeOf w).dims = words ns) (fits : ns.prod < wordBound)
    (ok : evalOp g j u = .ok () u') :
    (∀ y, Inside y (T.packed ns) → ∃ x, (u.arrayAt r).get (words y) = .ok x) ∧
      ∀ is, Inside is ns → (u'.arrayAt u.memory.size).get (words is) = (u.arrayAt r).get (words (T.blocked is)) := by
  have few : rank ≤ lengthLimit.toNatClampNeg := by
    have few := whole.rank
    rwa [ValueType.rank,dims,wordsLength,length] at few
  have blocked : (g.typeOf v).dims = words (T.packed ns) := by
    have shape := whole.shape
    rw [dims,describes.packedShapeOk (few.trans_lt (by decide)) length rounds] at shape
    exact (Except.ok.inj shape).symm
  rw [evalOpUnpack kind] at ok
  obtain ⟨m,map,loop⟩ := evalUnpackLoop ⟨whole.source,whole.dest,describes,fun _ => results⟩ few boundV out
    (by rw [u.arrayAtNew,typeW,ValueType.rank,dims,wordsLength,length])
  rw [loop,u.arrayAtOld valid,typeV,blocked] at ok
  obtain ⟨-,read,reads⟩ := unpackLoopReads rounds (by simp) (valid.ne) map length small divides fits
    (by rw [u.arrayAtNew,typeW,dims]) ok
  rw [u.arrayAtOld valid] at read reads
  exact ⟨read,reads⟩

end Eval

namespace Propagation

open Eval Relayout Blocking

structure Countable (t : ValueType) : Prop where
  rank : t.rank ≤ lengthLimit.toNatClampNeg
  nonneg : ∀ n ∈ t.dims, 0 ≤ n
  count : t.exactCount < 2 ^ 63

instance (t : ValueType) : Decidable (Countable t) :=
  decidable_of_iff (t.rank ≤ lengthLimit.toNatClampNeg ∧ t.dims.all (0 ≤ ·) = true ∧ t.exactCount < 2 ^ 63)
    ⟨fun ⟨rank,nonneg,count⟩ => ⟨rank,by simpa using nonneg,count⟩,
      fun ⟨rank,nonneg,count⟩ => ⟨rank,by simpa using nonneg,count⟩⟩

theorem Countable.words {t : ValueType} (countable : Countable t) : ∃ ms, t.dims = words ms ∧ Small ms ∧
    ms.length ≤ lengthLimit.toNatClampNeg ∧ ms.prod < wordBound ∧ t.numElements = ofNat ms.prod := by
  obtain ⟨ms,small,dims⟩ := wordsOfNonneg countable.nonneg
  have rank := countable.rank
  have fits := countable.count
  rw [ValueType.rank,dims,wordsLength] at rank
  rw [ValueType.exactCount,dims,exactProductWords small] at fits
  refine ⟨ms,dims,small,rank,?_,by rw [ValueType.numElements,dims,countWords]⟩
  rw [wordBound]
  exact_mod_cast fits

theorem paddedAxesMem {k low high axes} (ok : paddedAxesFrom k low high = .ok axes) {i l} (at_ : low[i]? = some l)
    (padded : l ≠ 0) :
    k + i ∈ axes := by
  induction low generalizing k high axes i with
  | nil => cases at_
  | cons x low ih =>
    have step : ∃ here rest, (x ≠ 0 → here = true) ∧ paddedAxesFrom (k + 1) low (high.drop 1) = .ok rest ∧
        axes = if here then k :: rest else rest := by
      unfold paddedAxesFrom at ok
      dsimp only at ok
      split at ok
      · rw [Outcome.bindOfOk] at ok
        obtain ⟨rest,isRest,made⟩ := Outcome.bindOk.mp ok
        exact ⟨true,rest,fun _ => rfl,isRest,(Except.ok.inj made).symm⟩
      · rename_i zero
        split at ok
        · obtain ⟨_,stopped,-⟩ := Outcome.bindOk.mp ok
          exact absurd stopped Outcome.abortOk
        · rw [Outcome.bindOfOk] at ok
          obtain ⟨rest,isRest,made⟩ := Outcome.bindOk.mp ok
          exact ⟨_,rest,fun nonzero => absurd nonzero zero,isRest,(Except.ok.inj made).symm⟩
    obtain ⟨here,rest,isHere,isRest,rfl⟩ := step
    cases i with
    | zero =>
      cases at_
      rw [isHere padded]
      exact .head _
    | succ i =>
      have mem := ih isRest at_
      rw [Nat.add_right_comm] at mem
      split
      · exact .tail _ mem
      · exact mem

theorem givenInts (attrs : Attributes) (name : String) : (attrs.given? name).getD [] = (attrs.ints? name).getD [] := by
  rw [Attributes.given?,Attributes.ints?]
  split <;> rfl

theorem blockedPaddingWords {rank} {l : Layout} {T : Tiling rank} (describes : l.Describes T) (small : rank < wordBound)
    {given low : Option (List Int64)} {lo : List Nat} (isLow : given.getD [] = words lo) (length : lo.length = rank)
    (ok : blockedPadding l given = .ok low) : low.getD [] = words (T.padding lo) := by
  obtain ⟨outer,moved,made⟩ := Outcome.bindOk.mp ok
  rw [isLow,describes.interchanged small length] at moved
  cases moved
  cases made
  have all : words (T.order.map (lo.getD · 0)) ++ l.tiles.map (fun _ => (0 : Int64)) = words (T.padding lo) := by
    rw [Tiling.padding,wordsAppend,describes.tiles]
    simp [words,Function.comp_def]
  rw [all]
  split
  · rename_i none
    have none : words (T.padding lo) = [] := by simpa using (Bool.and_eq_true_iff.mp none).2
    rw [none]
    rfl
  · rfl

theorem filledCells {α} [Scalar α] {t p} {a : NdArray α} {ms} (ok : NdArray.filled t p = .ok a) (full : a.Full ms) {is}
    (inside : Inside is ms) : a.cell ms is = p := by
  obtain ⟨-,rfl⟩ := filledOk.mp ok
  have lt := NdArray.positionLt inside
  rw [← full.size] at lt
  rw [NdArray.cell,Array.getD_eq_getD_getElem?,Array.getElem?_eq_getElem lt,Option.getD_some,Array.getElem_replicate]

theorem tilesFit {ms : List Nat} {T : Tiling ms.length} (divides : T.Divides ms) (pos : ∀ m ∈ ms, 0 < m)
    (short : ms.prod ≤ lengthLimit.toNatClampNeg) : T.Rounds ms := by
  intro a
  by_cases ha : a < ms.length
  · have mem : ms.getD a 0 ∈ ms := by
      rw [getD_eq_getElem _ _ ha]
      exact getElem_mem ha
    have tile := Nat.le_of_dvd (pos _ mem) (divides a)
    have all := Nat.le_of_dvd (prod_pos pos) (dvd_prod mem)
    have bound : lengthLimit.toNatClampNeg = 2 ^ 44 := by decide
    rw [wordBound]
    omega
  · rw [getD_eq_default _ _ (Nat.le_of_not_lt ha),T.tileOfFree fun mem => ha (T.innerLt a mem)]
    decide

def ReadsBlocked {α : Type} (l : Layout) (t : ValueType) (a c : NdArray α) : Prop :=
  ∀ (rank : Nat) (T : Tiling rank) (ns : List Nat), ns.length = rank → l.Describes T → T.Rounds ns → T.Divides ns →
    Small ns → t.dims = words ns → ns.prod < wordBound → (∀ y, Inside y (T.packed ns) → ∃ x, c.get (words y) = .ok x) ∧
      ∀ is, Inside is ns → a.get (words is) = c.get (words (T.blocked is))

section Moved

variable {α : Type} [Scalar α] {g g' : Graph} {id j : OpId} {x w : Value} {value : Operand}
  {low high : Option (List Int64)} {axes : List Nat} {t : ValueType} {d : Draft} {s' : Machine α} {r : Ref} {p : α}
  {out : NdArray α}

/- The pad, an empty tensor and the unpack that take the place of the pad `id`, and the machine on which they start. -/
variable (passes : PassesPad g id j x value low high axes t d) (whole : UnpacksWhole g j x w)
  (countable : Countable (g.typeOf (.result id 0))) (tensor : (g.typeOf (.result id 0)).isTensor = true)
  (kind : (g.typeOf (.result id 0)).withKind .tensor = g.typeOf (.result id 0))
  (stages : ∀ m o, (padOp (some x) value t low high :: padUnpack g.ops.size (g.typeOf (.result id 0))
    (layoutOf (g.op j)) (.ofOp (g.op j)))[m]? = some o → g'.IsAt (g.ops.size + m) o)
  (source : s'.env x = some r) (valid : r < s'.memory.size)
  (type : (s'.arrayAt r).type = g.typeOf x)
  (number : ∃ y q, value = some y ∧ s'.env y = some q ∧ (s'.arrayAt q).data[0]? = some p)
  (filled : NdArray.filled (g.typeOf (.result id 0)) p = .ok out)

include passes whole countable in
theorem PassesPad.ranks : (g.typeOf w).dims.length = (g.typeOf (.result id 0)).dims.length := by
  have padded : t.dims.length = (g.typeOf x).dims.length := by
    have padded := passes.padded
    rw [paddedType] at padded
    split at padded
    · rename_i lengths
      cases padded
      have same (ds ls hs : List Int64) (hl : ls.length = ds.length) (hh : hs.length = ds.length) :
          (paddedDims ds ls hs).length = ds.length := by
        induction ds generalizing ls hs with
        | nil => simp [paddedDims]
        | cons d ds ih =>
          obtain ⟨l,ls,rfl⟩ := exists_cons_of_length_eq_add_one hl
          obtain ⟨h,hs,rfl⟩ := exists_cons_of_length_eq_add_one hh
          rw [paddedDims,length_cons,length_cons,ih ls hs (by simpa using hl) (by simpa using hh)]
      exact same _ _ _ lengths.1 lengths.2
    · cases padded
  have first := Layout.packedShapeLength (whole.rank.trans_lt (by decide)) whole.shape
  have second := Layout.packedShapeLength (countable.rank.trans_lt (by decide)) passes.shape
  omega

omit [Scalar α] in
include stages source number in
theorem padStarts {blank} (filled : NdArray.filled t p = .ok blank) : PadStarts g' g.ops.size s' r p blank := by
  obtain ⟨-,operands,results,resultType,-⟩ := padAt (m := g.ops.size) (stages 0 _ rfl)
  obtain ⟨y,q,rfl,bound,first⟩ := number
  exact ⟨⟨x,by rw [operands]; rfl,source⟩,⟨y,q,by rw [operands]; rfl,bound,first⟩,results,by
    rw [resultType,filled]⟩

include stages in
theorem behindPad {blocked a} (ran : evalPad g' g.ops.size s' = .ok () (s'.bindFresh (.result g.ops.size 0) blocked))
    (rest : Leads g' [g.ops.size + 1, g.ops.size + 2] (g.ops.size + 1) (s'.bindFresh (.result g.ops.size 0) blocked)
      (.result (g.ops.size + 2) 0) a) :
    Leads g' (range' g.ops.size 3) g.ops.size s' (.result (g.ops.size + 2) 0) a := by
  rw [← evalOpPad (padAt (m := g.ops.size) (stages 0 _ rfl)).1] at ran
  exact .after (evalEachOne ran) (.bindFresh (le_rfl) s' 0 blocked) (Nat.le_succ _) rest

include tensor kind stages in
theorem unpackBehind {ms : List Nat} {T : Tiling ms.length} {blocked : NdArray α}
    (describes : (layoutOf (g.op j)).Describes T) (rank : ms.length ≤ lengthLimit.toNatClampNeg)
    (dims : (g.typeOf (.result id 0)).dims = words ms) (small : Small ms)
    (short : ms.prod ≤ lengthLimit.toNatClampNeg) (rounds : T.Rounds ms) (full : blocked.Full (T.packed ms))
    (ran : evalPad g' g.ops.size s' = .ok () (s'.bindFresh (.result g.ops.size 0) blocked)) :
    Leads g' (range' g.ops.size 3) g.ops.size s' (.result (g.ops.size + 2) 0)
      (blocked.unpacked T ms (g.typeOf (.result id 0))) := by
  have array : (s'.bindFresh (.result g.ops.size 0) blocked).arrayAt s'.memory.size = blocked := s'.arrayAtNew
  have run := unpackNew (s := s'.bindFresh (.result g.ops.size 0) blocked) (stages 1 _ rfl) (kind ▸ stages 2 _ rfl)
    tensor kind describes rank dims small short (Nat.lt_succ_self _) (by simp) (by simp) rounds (array.symm ▸ full)
  rw [array] at run
  exact behindPad stages ran run

include passes whole countable tensor kind stages source valid type number filled

theorem PassesPad.movedEmpty (empty : (g.typeOf w).dims.any (· ≤ 0) = true) :
    Leads g' (range' g.ops.size 3) g.ops.size s' (.result (g.ops.size + 2) 0) out := by
  obtain ⟨ms,dims,small,rank,fits,elements⟩ := countable.words
  have within : ms.length < wordBound := rank.trans_lt (by decide)
  have within' : (g.typeOf (.result id 0)).dims.length < wordBound := by rwa [dims,wordsLength]
  have blank : (s'.arrayAt r).type.dims.any (· ≤ 0) = true := by
    rw [type]
    exact Layout.packedShapeEmpty (whole.rank.trans_lt (by decide)) whole.shape empty
  have short : ms.prod ≤ lengthLimit.toNatClampNeg := by
    have size := filledShort filled
    obtain ⟨-,rfl⟩ := filledOk.mp filled
    rwa [Array.size_replicate,elements,Word.toNatOfNat fits] at size
  have shape := passes.shape
  have divides := passes.divides
  rw [dims] at shape divides
  obtain ⟨_,validated,-⟩ := Outcome.bindOk.mp shape
  rw [wordsLength] at validated
  obtain ⟨T,describes⟩ := Layout.describedOfValid within validated
  by_cases none : ms.prod = 0
  · have zero : 0 ∈ t.dims := by
      refine Layout.packedShapeZero within' passes.shape ?_
      rw [dims,show (0 : Int64) = ofNat 0 from rfl]
      exact mem_map_of_mem (prod_eq_zero_iff.mp none)
    have count : t.numElements = 0 := ValueType.countZero zero
    have made : NdArray.filled t p = .ok ⟨t,#[]⟩ := filledOk.mpr ⟨by rw [count]; decide,by rw [count]; rfl⟩
    have result : out = ⟨g.typeOf (.result id 0),#[]⟩ := by
      obtain ⟨-,rfl⟩ := filledOk.mp filled
      rw [elements,none]
      rfl
    refine behindPad stages ((padStarts stages source number made).runEmpty valid blank) ?_
    rw [result]
    refine unpackNothing (r := s'.memory.size) (stages 1 _ rfl) (kind ▸ stages 2 _ rfl) tensor kind describes rank dims
      small short (Nat.lt_succ_self _) (by simp) (by simp) none ?_
    rw [s'.arrayAtNew]
    exact any_eq_true.mpr ⟨0,zero,rfl⟩
  · have pos (m : Nat) (mem : m ∈ ms) : 0 < m :=
      Nat.pos_of_ne_zero fun zero => none (prod_eq_zero (zero ▸ mem))
    have whole := (describes.dividesIff within rfl small).mp divides
    have rounds := tilesFit whole pos short
    rw [describes.packedShapeOk within rfl rounds] at shape
    have shape := (Except.ok.inj shape).symm
    have product := T.packedProduct rfl whole
    obtain ⟨blocked,made,full,-⟩ := filledFull p shape (T.packedSmall rounds) (product ▸ short)
    have fullOut : out.Full ms := (filledCounted filled).2.full (by rw [(filledCounted filled).1,dims]) small fits
    have same : out = blocked.unpacked T ms (g.typeOf (.result id 0)) := by
      refine fullOut.ext (NdArray.tabulateFull _ dims small fits) (filledCounted filled).1 fun is inside => ?_
      rw [NdArray.unpacked,NdArray.tabulateCell _ inside,filledCells filled fullOut inside,
        filledCells made full (T.blockedInside rfl inside)]
    rw [same]
    exact unpackBehind tensor kind stages describes rank dims small short rounds full
      ((padStarts stages source number made).runEmpty valid blank)

omit tensor kind stages source valid type number filled

structure PadTiles (g : Graph) (id j : OpId) (x : Value) (t : ValueType) (low : Option (List Int64)) (ns ms lo : List Nat)
    (T : Tiling ms.length) : Prop where
  rank : ms.length ≤ lengthLimit.toNatClampNeg
  length : ns.length = ms.length
  describes : (layoutOf (g.op j)).Describes T
  rounds : T.Rounds ms
  divides : T.Divides ms
  shape : t.dims = words (T.packed ms)
  sourceRounds : T.Rounds ns
  sourceDivides : T.Divides ns
  sourceShape : (g.typeOf x).dims = words (T.packed ns)
  free : ∀ a ∈ T.inner, lo.getD a 0 = 0
  padding : low.getD [] = words (T.padding lo)

theorem PassesPad.tiles {ns ms lo : List Nat} (dims : (g.typeOf w).dims = words ns) (small : Small ns)
    (pos : ∀ n ∈ ns, 0 < n) (dims' : (g.typeOf (.result id 0)).dims = words ms) (small' : Small ms)
    (short : ms.prod ≤ lengthLimit.toNatClampNeg) (isLow : padLow (g.op id) = words lo) (smallLow : Small lo)
    (lengthLow : lo.length = ns.length) (within : ∀ is, Inside is ns → Inside (shift lo is) ms) :
    ∃ T, PadTiles g id j x t low ns ms lo T := by
  have rank : ms.length ≤ lengthLimit.toNatClampNeg := by
    have rank := countable.rank
    rwa [ValueType.rank,dims',wordsLength] at rank
  have few : ms.length < wordBound := rank.trans_lt (by decide)
  have length : ns.length = ms.length := by
    have same := passes.ranks whole countable
    rwa [dims,dims',wordsLength,wordsLength] at same
  have larger := Box.shiftExtent lengthLow within pos
  have pos' (m : Nat) (mem : m ∈ ms) : 0 < m := by
    obtain ⟨a,ha,rfl⟩ := getElem_of_mem mem
    have le := larger a
    rw [getD_eq_getElem _ _ ha,getD_eq_getElem _ _ (length ▸ ha)] at le
    exact (pos _ (getElem_mem _)).trans_le le
  have shape := passes.shape
  have divided := passes.divides
  have sourceShape := whole.shape
  have sourceDivided := whole.divides
  rw [dims'] at shape divided
  rw [dims] at sourceShape sourceDivided
  obtain ⟨_,validated,-⟩ := Outcome.bindOk.mp shape
  rw [wordsLength] at validated
  obtain ⟨T,describes⟩ := Layout.describedOfValid few validated
  have divides := (describes.dividesIff few rfl small').mp divided
  have rounds := tilesFit divides pos' short
  have sourceRounds : T.Rounds ns := fun a => Nat.lt_of_le_of_lt
    (Nat.sub_le_sub_right (Nat.add_le_add_right (larger a) _) 1) (rounds a)
  rw [describes.packedShapeOk few rfl rounds] at shape
  rw [describes.packedShapeOk few length sourceRounds] at sourceShape
  refine ⟨T,rank,length,describes,rounds,divides,(Except.ok.inj shape).symm,sourceRounds,
    (describes.dividesIff few length small).mp sourceDivided,(Except.ok.inj sourceShape).symm,fun a inner => ?_,
    blockedPaddingWords describes few ((givenInts ..).trans isLow) (lengthLow.trans length) passes.isLow⟩
  by_contra padded
  have ha : a < lo.length := by
    rw [lengthLow,length]
    exact T.innerLt a inner
  have at_ : (padLow (g.op id))[a]? = some (ofNat (lo.getD a 0)) := by
    rw [isLow,wordsGet,getElem?_eq_getElem ha,getD_eq_getElem _ _ ha]
    rfl
  have mem := paddedAxesMem passes.padding at_ fun zero => padded (Word.ofNatInj (by
    rw [getD_eq_getElem _ _ ha]
    exact smallLow _ (getElem_mem ha)) (by decide) zero)
  rw [Nat.zero_add] at mem
  refine passes.untiled a mem ?_
  rw [describes.inner]
  exact mem_map_of_mem inner

omit passes whole countable
include tensor kind stages source valid type number filled

theorem PadTiles.moved {ns ms lo : List Nat} {T : Tiling ms.length} {y : List Nat → α}
    (tiles : PadTiles g id j x t low ns ms lo T) (dims : (g.typeOf (.result id 0)).dims = words ms) (full : out.Full ms)
    (short : ms.prod ≤ lengthLimit.toNatClampNeg) (lengthLow : lo.length = ns.length)
    (within : ∀ is, Inside is ns → Inside (shift lo is) ms)
    (reads : ∀ b, Inside b (T.packed ns) → (s'.arrayAt r).get (words b) = .ok (y b)) :
    Leads g' (range' g.ops.size 3) g.ops.size s' (.result (g.ops.size + 2) 0)
      (out.putAll (shift lo) (fun is => y (T.blocked is)) ms (grid ns)) := by
  have lengthLow := lengthLow.trans tiles.length
  have product := T.packedProduct rfl tiles.divides
  obtain ⟨blank,made,fullB,-⟩ := filledFull p tiles.shape (T.packedSmall tiles.rounds) (product ▸ short)
  have withinB (b : List Nat) (inside : Inside b (T.packed ns)) : Inside (shift (T.padding lo) b) (T.packed ms) := by
    have flat := T.flatInside tiles.length tiles.sourceDivides inside
    rw [← T.blockedFlat (T.insideTiles inside),
      ← T.blockedShift lengthLow (flat.length_eq.trans tiles.length) tiles.free]
    exact T.blockedInside rfl (within _ flat)
  have ran := (padStarts stages source number made).run valid (x := y) (by rw [type,tiles.sourceShape])
    (T.packedSmall tiles.sourceRounds)
    ((padAt (m := g.ops.size) (stages 0 _ rfl)).2.2.2.2.trans tiles.padding)
    (by rw [T.paddingLength,T.packedLength]) fullB reads withinB
  obtain ⟨fullP,-⟩ := fullB.putAll (shift (T.padding lo)) y (grid (T.packed ns))
  have run := unpackBehind tensor kind stages tiles.describes tiles.rank dims full.small short tiles.rounds fullP ran
  rwa [← (filledCounted filled).1,NdArray.paddedUnpacked tiles.length rfl lengthLow tiles.free tiles.sourceDivides
    within full fullB (fun is => filledCells filled full) (fun b => filledCells made fullB)] at run

omit filled
include passes whole countable

theorem PassesPad.step {s v : Machine α} {q : Ref} (starts : PadStarts g id s q p out) (validQ : q < s.memory.size)
    (typeQ : (s.arrayAt q).type = g.typeOf w)
    (loop : Box.each ((s.grown out).arrayAt q).type.dims (padPoint (padLow (g.op id)) q s.memory.size)
      (s.grown out) = .ok () v)
    (reads : ReadsBlocked (layoutOf (g.op j)) (g.typeOf w) (s.arrayAt q) (s'.arrayAt r)) :
    ∃ a, v.bound (.result id 0) s.memory.size = s.bindFresh (.result id 0) a ∧ a.type = g.typeOf (.result id 0) ∧
      Leads g' (range' g.ops.size 3) g.ops.size s' (.result (g.ops.size + 2) 0) a := by
  obtain ⟨typeOut,counted⟩ := filledCounted starts.filled
  have ok := evalPadOk.mpr ⟨q,p,out,starts,v,loop,rfl⟩
  by_cases empty : (g.typeOf w).dims.any (· ≤ 0) = true
  · have ran := starts.runEmpty validQ (by rw [typeQ]; exact empty)
    rw [ok] at ran
    exact ⟨out,(EStateM.Result.ok.inj ran).2,typeOut,
      passes.movedEmpty whole countable tensor kind stages source valid type number starts.filled empty⟩
  · have pos (n : Int64) (mem : n ∈ (g.typeOf w).dims) : 0 < n := by
      refine Int64.not_le.mp fun le => empty (any_eq_true.mpr ⟨n,mem,decide_eq_true le⟩)
    obtain ⟨ns,small,dims⟩ := wordsOfNonneg fun n mem => Int64.le_of_lt (pos n mem)
    have pos (n : Nat) (mem : n ∈ ns) : 0 < n := by
      have pos := pos (ofNat n) (by rw [dims]; exact mem_map_of_mem mem)
      rwa [show (0 : Int64) = ofNat 0 from rfl,Word.ofNatLtIff (by decide) (small n mem)] at pos
    obtain ⟨ms,dims',small',rank,fits,-⟩ := countable.words
    have full : out.Full ms := counted.full (by rw [typeOut,dims']) small' fits
    have short : ms.prod ≤ lengthLimit.toNatClampNeg := full.size ▸ filledShort starts.filled
    have length : ns.length = ms.length := by
      have same := passes.ranks whole countable
      rwa [dims,dims',wordsLength,wordsLength] at same
    /- The loop of the old pad tells where the source lies inside the padded array. -/
    have old : (s.grown out).arrayAt q = s.arrayAt q := by rw [s.arrayAtGrown,if_neg (validQ.ne)]
    rw [old,typeQ,dims] at loop
    obtain ⟨lo,isLow,smallLow,lengthLow,within⟩ := padLoopOk small pos (validQ.ne) (by simp [Machine.grown])
      (by rw [s.arrayAtGrown,if_pos rfl,typeOut,dims']) small' length loop
    have within (is : List Nat) (inside : Inside is ns) := (within is inside).2
    obtain ⟨T,tiles⟩ := passes.tiles whole countable dims small pos dims' small' short isLow smallLow lengthLow within
    obtain ⟨read,same⟩ := reads _ T ns tiles.length tiles.describes tiles.sourceRounds tiles.sourceDivides small dims
      ((Box.shiftProduct lengthLow within).trans_lt fits)
    have : Nonempty α := ⟨p⟩
    choose! y found using read
    have ran := starts.run validQ (x := fun is => y (T.blocked is)) (by rw [typeQ,dims]) small isLow lengthLow full
      (fun is inside => (same is inside).trans (found _ (T.blockedInside tiles.length inside))) within
    rw [ok] at ran
    exact ⟨_,(EStateM.Result.ok.inj ran).2,(full.putAll ..).2.trans typeOut,tiles.moved tensor kind stages source
      valid type number starts.filled dims' full short lengthLow within found⟩

end Moved

section Anchor

variable {α : Type} [Scalar α] {g g' : Graph} {id j : OpId} {b : BlockId} {x w : Value} {value : Operand}
  {low high : Option (List Int64)} {axes : List Nat} {t : ValueType} {d : Draft} {memory : Array (NdArray α)}
  {args : List Ref}

theorem PassesPad.anchored (passes : PassesPad g id j x value low high axes t d) (whole : UnpacksWhole g j x w)
    (countable : Countable (g.typeOf (.result id 0))) (tensor : (g.typeOf (.result id 0)).isTensor = true)
    (kind : (g.typeOf (.result id 0)).withKind .tensor = g.typeOf (.result id 0))
    (isPad : (g.op id).kind = padKind) (orderly : ∀ k ∈ (g.block Graph.body).ops, g.Orderly k)
    (swap : Swap α g g' id b (range' g.ops.size 3) [.result (g.ops.size + 2) 0])
    (stages : ∀ m o, (padOp (some x) value t low high :: padUnpack g.ops.size (g.typeOf (.result id 0))
      (layoutOf (g.op j)) (.ofOp (g.op j)))[m]? = some o → g'.IsAt (g.ops.size + m) o) :
    Swap.Anchored g g' id (range' g.ops.size 3) [.result (g.ops.size + 2) 0] (InPlace g) g.Typed memory args := by
  intro pre post split first s started ran p s' after agree settled ok
  have formed := swap.formed
  have here : id ∈ (g.block Graph.body).ops := split ▸ mem_append_right _ (.head _)
  have apart := swap.apart split
  obtain ⟨i,operand⟩ := passes.operand
  have early := (swap.operands split (mem_of_getElem? operand)).2 j i rfl
  have inside : j ∈ (g.block Graph.body).ops := split ▸ mem_append_left _ early
  have kindJ : (g.op j).kind = unpackKind := of_decide_eq_true passes.isUnpack
  obtain ⟨left,right,rfl⟩ := append_of_mem early
  obtain ⟨u,u',saneU,saneS,made,unboundJ,unbound,env,keeps,kept⟩ := swap.reached
    (fun k mem _ => (orderly k mem).suits fun v used => operandsHas formed mem used) split started started.typed ran
  rw [evalOpPad isPad] at ok
  obtain ⟨q,num,out,starts,v,loop,rfl⟩ := evalPadOk.mp ok
  obtain ⟨_,at_,bound⟩ := starts.source
  obtain ⟨y,o,atValue,boundValue,isFirst⟩ := starts.value
  cases operand.symm.trans at_
  /- The array that the pad reads is the one that the unpack made. -/
  have has := operandsHas formed here (mem_of_getElem? operand)
  have leaves := bound
  rw [env] at leaves
  obtain ⟨tensorW,rfl,rfl,r,o',boundX,boundW,validX,output⟩ := unpackLeaves whole.source whole.dest kindJ has
    (orderly j inside).fewResults (fun v r found => (saneU.fits found).2) unboundJ made leaves
  have resultType : g.typeOf (.result j 0) = g.typeOf w :=
    (orderly j inside).copied 1 0 w whole.dest tensorW (.inr (.inl ⟨.inr kindJ,rfl,rfl⟩)) has
  have typeX : (u.arrayAt r).type = g.typeOf x :=
    (saneU.fits boundX).1 (operandsHas formed inside (mem_of_getElem? whole.source))
  have typeW : (u.arrayAt o').type = g.typeOf w :=
    (saneU.fits boundW).1 (operandsHas formed inside (mem_of_getElem? whole.dest))
  obtain ⟨typed,valid⟩ := saneS.fits bound
  obtain ⟨boundX',sameX⟩ := kept x (mem_of_getElem? whole.source) whole.tensor r boundX
  have wholeSplit : (g.block Graph.body).ops = left ++ j :: (right ++ id :: post) := by rw [split]; simp
  obtain ⟨belowX,originX⟩ := swap.operands wholeSplit (mem_of_getElem? whole.source)
  obtain ⟨r',source,-,valid',same⟩ := agree.kept belowX
    (fun i same => apart (mem_append_left _ (originX id i same))) boundX'
  obtain ⟨belowV,otherV,-⟩ := swap.operandKnown split (mem_of_getElem? atValue)
  obtain ⟨o'',boundV,-,-,sameV⟩ := agree.kept belowV otherV boundValue
  have reads : ReadsBlocked (layoutOf (g.op j)) (g.typeOf w) (s.arrayAt u.memory.size) (s'.arrayAt r') := by
    intro rank T ns length describes rounds divides small dims fits
    rw [same,sameX,keeps 0 _ (resultType ▸ tensorW) leaves]
    exact unpackLeavesReads whole kindJ boundX validX output typeX typeW
      ⟨has,(orderly j inside).fewResults⟩ length describes rounds divides small dims fits made
  obtain ⟨a,result,type,t',z,run,extends_,gives⟩ := passes.step whole countable tensor kind stages source
    valid' (by rw [same,sameX,typeX])
    ⟨y,o'',Option.some.inj (passes.isValue.symm.trans atValue),boundV,by rw [sameV]; exact isFirst⟩ starts valid
    ((typed has).trans resultType) loop reads
  rw [result]
  obtain ⟨pair,agreed,settled',more⟩ := agree.replaceOne settled unbound extends_ gives fun _ => type
  exact ⟨pair,t',run,agreed,settled',more⟩

theorem padMoved (formed : g.WellFormed) (orderly : ∀ k ∈ (g.block Graph.body).ops, g.Orderly k) (mem : id ∈ g.walkAll)
    (kind : (g.op id).kind = throughPad.root)
    (unpacked : ∀ j i, (g.op id).operands[0]? = some (some (.result j i)) → ∃ v w, UnpacksWhole g j v w)
    (countable : Countable (g.typeOf (.result id 0)))
    (drafted : throughPad.draft ⟨throughPad.name,id⟩ (.ofGraph g) = .ok () d) (valid : ∀ r ∈ args, r < memory.size) :
    RefinesBy g d id memory args := by
  obtain ⟨j,x,value,low,high,axes,t,passes⟩ := throughPadOk drafted
  obtain ⟨_,w,whole⟩ : ∃ v w, UnpacksWhole g j v w := by
    obtain ⟨i,operand⟩ := passes.operand
    exact unpacked j i operand
  cases passes.source.symm.trans whole.source
  obtain ⟨target,vals,ready⟩ := throughPadReady (formed.sightOf mem) drafted
  have draft := passes.draft
  obtain rfl : vals = [.result (g.ops.size + 2) 0] := ready.values (by rw [draft]; rfl)
  obtain rfl := ready.unmoved (by rw [draft]; rfl)
  have same : (g.typeOf (.result id 0)).withKind .tensor = g.typeOf (.result id 0) := by
    have type := ready.types 0 _ rfl
    rw [draft] at type
    exact (g.pushAllResultType _ (m := 2) rfl 0).symm.trans type
  have tensor : (g.typeOf (.result id 0)).isTensor = true := by
    rw [← same]
    rfl
  obtain ⟨fault,b,swap,stands⟩ := Swap.ofPushed (α := α) ready formed mem (.inl rfl) (by rw [kind]; decide)
    (show d.graph = g.pushAll (padOp (some x) value t low high :: padUnpack g.ops.size (g.typeOf (.result id 0))
      (layoutOf (g.op j)) (.ofOp (g.op j))) by rw [draft]; rfl) (by rw [draft]; rfl) (by
      simp only [padUnpack,List.forall_mem_cons,convertOp,padOp,Memory.emptyOp]
      decide)
  exact ⟨fault,swap.refines valid
    (fun k mem _ => (orderly k mem).suits fun v used => operandsHas formed mem used)
    (fun k writable => Bool.not_eq_false _ ▸ writable) (fun s started => started.typed)
    (passes.anchored whole countable tensor same kind orderly swap fun m o at_ => ⟨_,_,stands m o at_⟩)⟩

theorem throughPadRefines (ok : g.verify = .ok ()) (once : g.walkAll.Nodup)
    (orderly : ∀ k ∈ (g.block Graph.body).ops, g.Orderly k) (mem : id ∈ g.walkAll)
    (kind : (g.op id).kind = throughPad.root)
    (unpacked : ∀ j i, (g.op id).operands[0]? = some (some (.result j i)) → ∃ v w, UnpacksWhole g j v w)
    (countable : Countable (g.typeOf (.result id 0)))
    (drafted : throughPad.draft ⟨throughPad.name, id⟩ (.ofGraph g) = .ok () d) (valid : ∀ r ∈ args, r < memory.size) :
    (d.commit id).fault = none ∧ Refines g (d.commit id).graph memory args :=
  padMoved (Graph.wellFormedOfVerify ok once) orderly mem kind unpacked countable drafted valid

end Anchor

def paddedColumns : Graph :=
  straight [.tensor .f32 [3, 2, 2], .tensor .f32 [4, 3], .scalar .f32]
    [convertOp unpackKind (some (.argument 0 0)) (some (.argument 0 1)) (.tensor .f32 [4, 3]) ⟨[0],[1, 0],[2]⟩ .kept,
      padOp (some (.result 0 0)) (some (.argument 0 2)) (.tensor .f32 [4, 6]) (some [0, 1]) (some [0, 2]),
      ⟨returnKind,[some (.result 1 0)],[],OrderedMap.empty,none,none⟩] [0, 1, 2]

theorem throughPadRefinesColumns : ∃ d, throughPad.draft ⟨throughPad.name, 1⟩ (.ofGraph paddedColumns) = .ok () d ∧
    paddedColumns.verify = .ok () ∧ paddedColumns.walkAll.Nodup ∧ (d.commit 1).fault = none ∧
    Refines paddedColumns (d.commit 1).graph
      #[(⟨.tensor .f32 [3, 2, 2], #[1, 2, 3, 4, 5, 6, 7, 8, 9, 10, 11, 12]⟩ : NdArray Int),
        ⟨.tensor .f32 [4, 3], Array.replicate 12 0⟩, ⟨.scalar .f32, #[7]⟩] [0, 1, 2] := by
  have ok : paddedColumns.verify = .ok () := by decide +kernel
  have once : paddedColumns.walkAll.Nodup := by decide +kernel
  obtain ⟨d,drafted⟩ := draftedOf throughPad 1 paddedColumns (by decide +kernel)
  have orderly : ∀ k ∈ (paddedColumns.block Graph.body).ops, paddedColumns.Orderly k := by
    intro k mem
    obtain rfl | rfl | rfl : k = 0 ∨ k = 1 ∨ k = 2 := by simpa using (show k ∈ [0, 1, 2] from mem)
    all_goals
      exact Graph.Conventional.toOrderly ⟨by decide +kernel,by decide,by decide,fun isCopy => absurd isCopy (by decide)⟩
  have unpacked : ∀ j i, (paddedColumns.op 1).operands[0]? = some (some (.result j i)) →
      ∃ v w, UnpacksWhole paddedColumns j v w := by
    intro j i operand
    cases operand
    exact ⟨.argument 0 0,.argument 0 1,rfl,rfl,rfl,by decide +kernel,by decide +kernel,by decide +kernel⟩
  exact ⟨d,drafted,ok,once,throughPadRefines ok once orderly (by decide +kernel) (by decide +kernel) unpacked
    (by decide +kernel) drafted (by decide)⟩

/-- Pads that do something else once their unpack was moved behind them: with negative extents; after the tensor was
copied onto, or computed again; with more elements than words can count; and of a tensor that is not what it is
declared to be. -/
theorem padsChange :
    beforeThen returned (throughPad.committed 1)
      (straight [.tensor .f32 [1, 0, 0, 2], .tensor .f32 [2, 0, 0], .scalar .f32]
      [tiled unpackKind (.argument 0 0) (.argument 0 1) [.tensor .f32 [2, 0, 0]] 2,
        padOp (some (.result 0 0)) (some (.argument 0 2)) (.tensor .f32 [2, -2, -3]) (some [0, -2, -3]) (some [0, 0, 0]),
        plain Memory.returnKind [.result 1 0] []] [0, 1, 2])
      [#[], #[], #[7]] = some ([Array.replicate 12 7], some [Array.replicate 12 0]) ∧
    beforeThen returned (throughPad.committed 2)
      (straight [.tensor .f32 [1, 1, 2], .buffer .f32 [1, 1, 2], .tensor .f32 [2, 1], .scalar .f32]
      [tiled unpackKind (.argument 0 0) (.argument 0 2) [.tensor .f32 [2, 1]] 2,
        plain Memory.copyKind [.argument 0 1, .argument 0 0] [],
        padOp (some (.result 0 0)) (some (.argument 0 3)) (.tensor .f32 [2, 2]) (some [0, 1]) (some [0, 0]),
        plain Memory.returnKind [.result 2 0] []] [0, 1, 2, 3])
      [#[1, 2], #[3, 4], #[0, 0], #[9]] = some ([#[9, 1, 9, 2]], some [#[9, 3, 9, 4]]) ∧
    beforeThen returned (throughPad.committed 3)
      (straight [.buffer .f32 [1, 1, 2], .scalar .f32, .tensor .f32 [1, 1, 2], .tensor .f32 [2, 1]]
      [plain Structured.copyKind [.argument 0 0, .argument 0 2] [.tensor .f32 [1, 1, 2]],
        tiled unpackKind (.result 0 0) (.argument 0 3) [.tensor .f32 [2, 1]] 2,
        plain Structured.fillKind [.argument 0 1, .argument 0 0] [],
        padOp (some (.result 1 0)) (some (.argument 0 1)) (.tensor .f32 [2, 2]) (some [0, 1]) (some [0, 0]),
        plain Memory.returnKind [.result 3 0] []] [0, 1, 2, 0, 3, 4])
      [#[1, 2], #[9], #[0, 0], #[0, 0]] = some ([#[9, 1, 9, 2]], some [#[9, 9, 9, 9]]) ∧
    beforeThen returned (throughPad.committed 1)
      (straight [.tensor .f32 [4294967296, 0, 1], .tensor .f32 [4294967296, 0], .scalar .f32]
      [tiled unpackKind (.argument 0 0) (.argument 0 1) [.tensor .f32 [4294967296, 0]] 1,
        padOp (some (.result 0 0)) (some (.argument 0 2)) (.tensor .f32 [4294967296, 4294967296]) (some [0, 4294967296])
          (some [0, 0]),
        plain Memory.returnKind [.result 1 0] []] [0, 1, 2])
      [#[], #[], #[7]] = some ([#[]], none) ∧
    beforeThen returned (throughPad.committed 2) (straight [.tensor .f32 [1, 2, 2], .tensor .f32 [2, 1], .scalar .f32]
      [plain Structured.copyKind [.argument 0 0, .argument 0 0] [.tensor .f32 [1, 1, 2]],
        tiled unpackKind (.result 0 0) (.argument 0 1) [.tensor .f32 [2, 1]] 2,
        padOp (some (.result 1 0)) (some (.argument 0 2)) (.tensor .f32 [2, 2]) (some [0, 1]) (some [0, 0]),
        plain Memory.returnKind [.result 2 0] []] [0, 1, 2, 3])
      [#[1, 2, 3, 4], #[0, 0], #[9]] = some ([#[9, 1, 9, 2]], none) := by
  refine ⟨?_,?_,?_,?_,?_⟩ <;> decide +kernel

end Propagation

end TileLower

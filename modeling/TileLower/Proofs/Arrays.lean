import TileLower.Proofs.Boxes
import TileLower.Proofs.Outcomes

/-!
Arrays that hold one element for each vector of their shape. Such an array is the same as a function on the box.
-/
namespace TileLower

open List Outcome Word ValueType

instance : Scalar Int := ⟨0,(· + ·),(· * ·),(· - ·),max,fun x => x.toInt64.toInt⟩

def exactProduct (dims : List Int64) : Int := (dims.map Int64.toInt).prod

def ValueType.exactCount (t : ValueType) : Int := exactProduct t.dims

theorem exactProductWords {ns : List Nat} (small : Small ns) : exactProduct (words ns) = ns.prod := by
  induction ns with
  | nil => rfl
  | cons n ns ih =>
    simp only [exactProduct,wordsCons,map_cons,prod_cons,toIntOfNat small.head] at ih ⊢
    rw [ih small.tail]
    push_cast
    rfl

namespace NdArray

open Box (grid Inside)

def position : List Nat → List Nat → Nat
  | _ :: ns, i :: is => i * ns.prod + position ns is
  | _, _ => 0

theorem positionLt {ns is : List Nat} (inside : Inside is ns) : position ns is < ns.prod := by
  induction inside with
  | nil => simp [position]
  | @cons i n is ns below _ ih =>
    calc i * ns.prod + position ns is < i * ns.prod + ns.prod := by omega
      _ = (i + 1) * ns.prod := by ring
      _ ≤ n * ns.prod := Nat.mul_le_mul_right _ below
      _ = (n :: ns).prod := by simp

theorem rangeBlocks (n p : Nat) :
    ((range n).flatMap fun i => (range p).map (i * p + ·)) = range (n * p) := by
  induction n with
  | zero => simp
  | succ n ih => simp [range_succ,ih,Nat.succ_mul,range_add]

theorem gridPositions (ns : List Nat) : (grid ns).map (position ns) = range ns.prod := by
  induction ns with
  | nil => rfl
  | cons n ns ih =>
    simp only [grid,map_flatMap,map_map,prod_cons,← rangeBlocks,← ih]
    rfl

theorem positionInj {ns is js} (hi : Inside is ns) (hj : Inside js ns) (same : position ns is = position ns js) :
    is = js := by
  have distinct : ((grid ns).map (position ns)).Nodup := gridPositions ns ▸ nodup_range
  exact inj_on_of_nodup_map distinct (Box.memGrid.mpr hi) (Box.memGrid.mpr hj) same

theorem positionSurj {ns : List Nat} {p} (below : p < ns.prod) : ∃ is, Inside is ns ∧ position ns is = p := by
  have mem : p ∈ (grid ns).map (position ns) := gridPositions ns ▸ mem_range.mpr below
  obtain ⟨is,his,rfl⟩ := mem_map.mp mem
  exact ⟨is,Box.memGrid.mp his,rfl⟩

theorem insideSmall {is ns} (inside : Inside is ns) (small : Small ns) : Small is := by
  induction inside with
  | nil => intro n hn; simp at hn
  | cons below _ ih =>
    intro k hk
    rcases mem_cons.mp hk with rfl | rest
    · exact below.trans small.head
    · exact ih small.tail k rest

theorem offsetInside {ns is : List Nat} (inside : Inside is ns) (small : Small ns) (o : Nat) :
    offsetFrom? (Int64.ofNat o) (words ns) (words is) = some (Int64.ofNat (o * ns.prod + position ns is)) := by
  induction inside generalizing o with
  | nil => simp [offsetFrom?,position]
  | @cons i n is ns below inside ih =>
    have hi : i < wordBound := below.trans small.head
    have within : ¬ (Int64.ofNat i < 0 ∨ Int64.ofNat n ≤ Int64.ofNat i) := by
      rw [ofNatLeIff small.head hi]
      exact fun h => h.elim (notNegative hi) (by omega)
    simp only [wordsCons,offsetFrom?,if_neg within,mulWords,addWords,ih small.tail,position,prod_cons]
    congr 2
    ring

theorem offsetOutside {ns is : List Nat} (same : is.length = ns.length) (small : Small ns) (smallIdx : Small is)
    (outside : ¬ Inside is ns) (o : Int64) : offsetFrom? o (words ns) (words is) = none := by
  induction ns generalizing is o with
  | nil => simp_all
  | cons n ns ih => cases is with
    | nil => simp at same
    | cons i is =>
      simp only [wordsCons,offsetFrom?]
      split
      · rfl
      · rename_i within
        rw [ofNatLeIff small.head smallIdx.head] at within
        refine ih (by simpa using same) small.tail smallIdx.tail (fun inside => outside ?_) _
        exact .cons (by omega) inside

theorem offsetCoordinates {ns : List Nat} {xs : List Int64} {o p} (same : xs.length = ns.length) (small : Small ns)
    (found : offsetFrom? o (words ns) xs = some p) : ∃ is, Inside is ns ∧ xs = words is := by
  induction ns generalizing xs o with
  | nil => exact ⟨[],.nil,length_eq_zero_iff.mp same⟩
  | cons n ns ih => cases xs with
    | nil => simp at same
    | cons x xs =>
      simp only [wordsCons,offsetFrom?] at found
      split at found
      · cases found
      · rename_i within
        obtain ⟨is,inside,rfl⟩ := ih (by simpa using same) small.tail found
        obtain ⟨i,lt,rfl⟩ := existsOfNonneg (Int64.not_lt.mp fun h => within (.inl h))
        rw [ofNatLeIff small.head lt] at within
        exact ⟨i :: is,.cons (by omega) inside,rfl⟩

variable {α : Type}

structure Full (a : NdArray α) (ns : List Nat) : Prop where
  dims : a.type.dims = words ns
  small : Small ns
  size : a.data.size = ns.prod
  fits : ns.prod < wordBound

theorem Full.rank {a : NdArray α} {ns} (full : a.Full ns) : a.type.rank = ns.length := by
  simp [ValueType.rank,full.dims]

theorem offsetAt {a : NdArray α} {ns is} (dims : a.type.dims = words ns) (small : Small ns) (inside : Inside is ns) :
    a.offset (words is) = .ok (Int64.ofNat (position ns is)) := by
  have found := offsetInside inside small 0
  rw [Nat.zero_mul,Nat.zero_add] at found
  have rank : (words is).length = a.type.rank := by
    rw [rank,dims,wordsLength,wordsLength,inside.length_eq]
  rw [offset,if_neg (not_not_intro rank),dims,show (0 : Int64) = Int64.ofNat 0 from rfl,found]

theorem getAt {a : NdArray α} {idx p} (small : p < wordBound) (found : a.offset idx = .ok (Int64.ofNat p)) :
    a.get idx = .ofOption a.data[p]? := by
  rw [get,found,bindOfOk,if_neg (notNegative small),toNatOfNat small]

theorem placeAt {a : NdArray α} {p i} (small : p < wordBound) :
    a.place (Int64.ofNat p) = .ok i ↔ p < a.data.size ∧ p = i := by
  rw [place,toNatOfNat small]
  split
  · rename_i within
    simp [within.2]
  · rename_i without
    exact ⟨nofun,fun within => absurd ⟨ofNatNonneg small,within.1⟩ without⟩

theorem Full.offset {a : NdArray α} {ns is} (full : a.Full ns) (inside : Inside is ns) :
    a.offset (words is) = .ok (Int64.ofNat (position ns is)) := offsetAt full.dims full.small inside

theorem Full.offsetOk {a : NdArray α} {ns xs p} (full : a.Full ns) (ok : a.offset xs = .ok p) :
    ∃ is, xs = words is ∧ Inside is ns := by
  rw [NdArray.offset] at ok
  split at ok
  · exact absurd ok failOk
  · rename_i rank
    have length : xs.length = ns.length := (not_not.mp rank).trans full.rank
    rw [full.dims] at ok
    cases found : offsetFrom? 0 (words ns) xs with
    | none =>
      rw [found] at ok
      exact absurd ok failOk
    | some p =>
      obtain ⟨is,inside,rfl⟩ := offsetCoordinates length full.small found
      exact ⟨is,rfl,inside⟩

theorem Full.positionSmall {a : NdArray α} {ns is} (full : a.Full ns) (inside : Inside is ns) :
    position ns is < wordBound := (positionLt inside).trans full.fits

theorem Full.place {a : NdArray α} {ns is} (full : a.Full ns) (inside : Inside is ns) :
    a.place (Int64.ofNat (position ns is)) = .ok (position ns is) :=
  (placeAt (full.positionSmall inside)).mpr ⟨full.size ▸ positionLt inside,rfl⟩

theorem inBoundsInside {a : NdArray α} {ns is} (dims : a.type.dims = words ns) (small : Small ns)
    (inside : Inside is ns) : a.inBounds (words is) = true := by
  have found := offsetInside inside small 0
  rw [inBounds,rank,dims,wordsLength,wordsLength,inside.length_eq,
    show (0 : Int64) = Int64.ofNat 0 from rfl,found]
  simp

theorem Full.inBounds {a : NdArray α} {ns is} (full : a.Full ns) (same : is.length = ns.length) (small : Small is) :
    a.inBounds (words is) = true ↔ Inside is ns := by
  refine ⟨fun found => ?_,inBoundsInside full.dims full.small⟩
  by_contra outside
  simp [NdArray.inBounds,full.dims,offsetOutside same full.small small outside] at found

structure OfType (a : NdArray α) (t : ValueType) : Prop where
  type : a.type = t
  size : a.data.size = t.exactCount

theorem OfType.full {a : NdArray α} {t : ValueType} {ns} (ofType : a.OfType t) (dims : t.dims = words ns)
    (small : Small ns) (fits : t.exactCount < 2 ^ 63) : a.Full ns := by
  have size := ofType.size
  rw [exactCount,dims,exactProductWords small] at size fits
  refine ⟨by rw [ofType.type,dims],small,by exact_mod_cast size,?_⟩
  rw [wordBound]
  exact_mod_cast fits

def tabulate (t : ValueType) (ns : List Nat) (f : List Nat → α) : NdArray α := ⟨t,((grid ns).map f).toArray⟩

theorem tabulateFull {t : ValueType} {ns : List Nat} (f : List Nat → α) (dims : t.dims = words ns)
    (small : Small ns) (fits : ns.prod < wordBound) : (tabulate t ns f).Full ns :=
  ⟨dims,small,by simp [tabulate,Box.gridLength],fits⟩

theorem gridAt {ns is} (inside : Inside is ns) : (grid ns)[position ns is]? = some is := by
  obtain ⟨k,hk,at_⟩ := getElem_of_mem (Box.memGrid.mpr inside)
  have len : k < ns.prod := Box.gridLength ns ▸ hk
  have place : position ns is = k := by
    have h : ((grid ns).map (position ns))[k]? = some k := by
      rw [gridPositions,getElem?_range len]
    rw [getElem?_map,getElem?_eq_getElem hk,at_] at h
    simpa using h
  rw [place,getElem?_eq_getElem hk,at_]

theorem tabulateCongr {t : ValueType} {ns : List Nat} {f g : List Nat → α}
    (same : ∀ is, Inside is ns → f is = g is) : tabulate t ns f = tabulate t ns g := by
  simp only [tabulate]
  rw [map_congr_left fun is his => same is (Box.memGrid.mp his)]

def put (a : NdArray α) (ns is : List Nat) (x : α) : NdArray α :=
  { a with data := a.data.setIfInBounds (position ns is) x }

theorem Full.put {a : NdArray α} {ns} (full : a.Full ns) (is : List Nat) (x : α) : (a.put ns is x).Full ns :=
  ⟨full.dims,full.small,by simp [NdArray.put,full.size],full.fits⟩

@[simp] theorem putType (a : NdArray α) (ns is : List Nat) (x : α) : (a.put ns is x).type = a.type := rfl

def putAll {ι : Type} (place : ι → List Nat) (x : ι → α) (a : NdArray α) (ns : List Nat) (is : List ι) : NdArray α :=
  is.foldl (fun a i => a.put ns (place i) (x i)) a

theorem Full.putAll {ι} {a : NdArray α} {ns} (full : a.Full ns) (place : ι → List Nat) (x : ι → α) (is : List ι) :
    (a.putAll place x ns is).Full ns ∧ (a.putAll place x ns is).type = a.type := by
  induction is generalizing a with
  | nil => exact ⟨full,rfl⟩
  | cons i is ih => exact ih (full.put (place i) (x i))

section Cells

variable [Scalar α]

def cell (a : NdArray α) (ns is : List Nat) : α := a.data.getD (position ns is) Scalar.zero

theorem Full.get {a : NdArray α} {ns is} (full : a.Full ns) (inside : Inside is ns) :
    a.get (words is) = .ok (a.cell ns is) := by
  have within : position ns is < a.data.size := full.size ▸ positionLt inside
  rw [getAt (full.positionSmall inside) (full.offset inside),cell,Array.getD,dif_pos within,
    Array.getElem?_eq_getElem within]
  rfl

theorem Full.getOk {a : NdArray α} {ns is} (full : a.Full ns) (same : is.length = ns.length) (small : Small is) {x} :
    a.get (words is) = .ok x ↔ Inside is ns ∧ a.cell ns is = x := by
  by_cases inside : Inside is ns
  · simp [full.get inside,inside]
  · have rank : ¬ (words is).length ≠ a.type.rank := by simp [full.rank,same]
    have none : a.offset (words is) = fail ("index " ++ Text.showInts (words is) ++
        " out of bounds for an array of type " ++ a.type.render) := by
      rw [NdArray.offset,if_neg rank,full.dims,show (0 : Int64) = Int64.ofNat 0 from rfl,
        offsetOutside same full.small small inside]
    rw [NdArray.get,none]
    exact ⟨nofun,fun h => absurd h.1 inside⟩

theorem Full.gotten {a : NdArray α} {ns xs} (full : a.Full ns) {x} (ok : a.get xs = .ok x) :
    ∃ is, xs = words is ∧ Inside is ns ∧ a.cell ns is = x := by
  obtain ⟨off,found,got⟩ := bindOk.mp ok
  obtain ⟨is,rfl,inside⟩ := full.offsetOk found
  rw [full.get inside] at ok
  exact ⟨is,rfl,inside,Except.ok.inj ok⟩

@[simp] theorem tabulateCell {t ns is} (f : List Nat → α) (inside : Inside is ns) :
    (tabulate t ns f).cell ns is = f is := by
  simp [tabulate,cell,Array.getD_eq_getD_getElem?,gridAt inside]

theorem Full.eqTabulate {a : NdArray α} {ns} (full : a.Full ns) : a = tabulate a.type ns (a.cell ns) := by
  have data : a.data = ((grid ns).map (a.cell ns)).toArray := by
    apply Array.ext'
    have cells : (grid ns).map (a.cell ns) = (range ns.prod).map fun p => a.data.getD p Scalar.zero := by
      rw [← gridPositions,map_map]
      rfl
    rw [cells,← full.size]
    apply ext_getElem
    · simp
    · intro i h1 h2
      have : i < a.data.size := by simpa using h1
      simp [Array.getD,this]
  cases a
  exact congrArg (NdArray.mk _) data

theorem Full.ext {a b : NdArray α} {ns} (ha : a.Full ns) (hb : b.Full ns) (type : a.type = b.type)
    (same : ∀ is, Inside is ns → a.cell ns is = b.cell ns is) : a = b := by
  rw [ha.eqTabulate,hb.eqTabulate,type]
  exact tabulateCongr same

theorem Full.putCell {a : NdArray α} {ns is js} (full : a.Full ns) (hi : Inside is ns) (hj : Inside js ns) (x : α) :
    (a.put ns is x).cell ns js = if js = is then x else a.cell ns js := by
  have within : position ns js < a.data.size := full.size ▸ positionLt hj
  simp only [cell,NdArray.put,Array.getD_eq_getD_getElem?,Array.getElem?_setIfInBounds]
  split
  · rename_i same
    have : is = js := positionInj hi hj same
    subst this
    simp [within]
  · rename_i different
    rw [if_neg fun h => different (by rw [h])]

/- What is left at a vector is the last write to it; where all writes to it agree, their order does not
matter. -/
section Writes

variable {ι : Type} {place : ι → List Nat} {x : ι → α}

theorem Full.putAllOther {a : NdArray α} {ns js} (full : a.Full ns) {is} (inside : ∀ i ∈ is, Inside (place i) ns)
    (hj : Inside js ns) (other : ∀ i ∈ is, place i ≠ js) :
    (a.putAll place x ns is).cell ns js = a.cell ns js := by
  induction is generalizing a with
  | nil => rfl
  | cons i is ih =>
    obtain ⟨hi,rest⟩ := forall_mem_cons.mp inside
    obtain ⟨here,later⟩ := forall_mem_cons.mp other
    refine (ih (full.put _ _) rest later).trans ?_
    rw [full.putCell hi hj,if_neg (Ne.symm here)]

theorem Full.putAllAt {a : NdArray α} {ns js} (full : a.Full ns) {is v} (inside : ∀ i ∈ is, Inside (place i) ns)
    (some : ∃ i ∈ is, place i = js) (agree : ∀ i ∈ is, place i = js → x i = v) :
    (a.putAll place x ns is).cell ns js = v := by
  induction is generalizing a with
  | nil => simp at some
  | cons i is ih =>
    obtain ⟨hi,rest⟩ := forall_mem_cons.mp inside
    obtain ⟨here,later⟩ := forall_mem_cons.mp agree
    by_cases again : ∃ k ∈ is, place k = js
    · exact ih (full.put _ _) rest again later
    · have last : place i = js := by
        obtain ⟨k,mem,at_⟩ := some
        rcases mem_cons.mp mem with rfl | mem
        · exact at_
        · exact absurd ⟨k,mem,at_⟩ again
      subst last
      refine ((full.put _ _).putAllOther rest hi fun k mem at_ => again ⟨k,mem,at_⟩).trans ?_
      rw [full.putCell hi hi,if_pos rfl,here rfl]

end Writes

end Cells

end NdArray

end TileLower

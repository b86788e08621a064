import TileLower.Proofs.Fullness

/-!
Index vectors and places. A box is visited in lexicographic order, and an array has a place for each vector exactly if
it has as many elements, counted without wrapping.
-/
namespace TileLower

open List

namespace Box

def Below (idx dims : List Int64) : Prop := Forall₂ (fun x d => 0 ≤ x ∧ x < d) idx dims

theorem memCoordinates {x d : Int64} : x ∈ coordinates d ↔ 0 ≤ x ∧ x < d := by
  rw [coordinates,mem_map]
  constructor
  · rintro ⟨i,mem,rfl⟩
    have lt := mem_range.mp mem
    have small : i < wordBound := lt.trans d.toNatClampNeg_lt
    refine ⟨Word.ofNatNonneg small,?_⟩
    rw [Int64.lt_iff_toInt_lt,Word.toIntOfNat small]
    rw [← Int64.toNat_toInt] at lt
    omega
  · rintro ⟨nonneg,lt⟩
    obtain ⟨n,small,rfl⟩ := Word.existsOfNonneg nonneg
    rw [Int64.lt_iff_toInt_lt,Word.toIntOfNat small] at lt
    refine ⟨n,mem_range.mpr ?_,rfl⟩
    rw [← Int64.toNat_toInt]
    omega

theorem memIndices {idx dims : List Int64} : idx ∈ indices dims ↔ Below idx dims := by
  induction dims generalizing idx with
  | nil => simp [indices,Below]
  | cons d dims ih =>
    simp only [indices,Below,mem_flatMap,mem_map,forall₂_cons_right_iff,memCoordinates]
    constructor
    · rintro ⟨x,inside,xs,mem,rfl⟩
      exact ⟨x,xs,inside,ih.mp mem,rfl⟩
    · rintro ⟨x,xs,inside,below,rfl⟩
      exact ⟨x,inside,xs,ih.mpr below,rfl⟩

theorem coordinatesAscend (d : Int64) : (coordinates d).Pairwise (· < ·) := by
  rw [coordinates,pairwise_map]
  refine pairwise_lt_range.imp_of_mem fun {i j} memI memJ lt => ?_
  have small {k} (mem : k ∈ List.range d.toNatClampNeg) : k < wordBound :=
    (mem_range.mp mem).trans d.toNatClampNeg_lt
  exact (Word.ofNatLtIff (small memI) (small memJ)).mpr lt

theorem indicesAscend (dims : List Int64) : (indices dims).Pairwise (· < ·) := by
  induction dims with
  | nil => exact pairwise_singleton _ _
  | cons d dims ih =>
    refine pairwise_flatMap.mpr ⟨fun x _ => pairwise_map.mpr (ih.imp Lex.cons),?_⟩
    refine (coordinatesAscend d).imp fun {x y} lt xs memX ys memY => ?_
    obtain ⟨_,-,rfl⟩ := mem_map.mp memX
    obtain ⟨_,-,rfl⟩ := mem_map.mp memY
    exact Lex.rel lt

theorem indicesNodup (dims : List Int64) : (indices dims).Nodup :=
  (indicesAscend dims).imp fun {x y} lt (same : x = y) => List.lt_irrefl y (same ▸ lt)

theorem indicesLength (dims : List Int64) : (indices dims).length = (dims.map Int64.toNatClampNeg).prod := by
  induction dims with
  | nil => rfl
  | cons d dims ih => simp [indices,coordinates,length_flatMap,Function.comp_def,ih]

theorem alongStops {σ ι : Type} {is : List ι} {f : ι → EStateM Fault σ Unit} {s t : σ} {e : Fault} :
    along is f s = .error e t ↔ ∃ before i later u, is = before ++ i :: later ∧ along before f s = .ok () u ∧
      f i u = .error e t := by
  constructor
  · intro stops
    induction is generalizing s with
    | nil => cases stops
    | cons i is ih =>
      cases ran : f i s with
      | error e' u =>
        simp only [along,bind,EStateM.bind,ran] at stops
        cases stops
        exact ⟨[],i,is,s,rfl,rfl,ran⟩
      | ok _ v =>
        rw [along,Step.bindOfOk ran] at stops
        obtain ⟨before,j,later,u,rfl,done,stops⟩ := ih stops
        exact ⟨i :: before,j,later,u,rfl,(Step.bindOfOk ran _).trans done,stops⟩
  · rintro ⟨before,i,later,u,rfl,done,stops⟩
    rw [alongAppend,Step.bindOfOk done,along]
    simp only [bind,EStateM.bind,stops]

/-- A step is run once at each vector of a box, in lexicographic order, up to the first that fails. -/
theorem eachVisits (dims : List Int64) :
    (indices dims).Pairwise (· < ·) ∧ (∀ idx, idx ∈ indices dims ↔ Below idx dims) ∧
      ((∃ d ∈ dims, d ≤ 0) → indices dims = []) ∧ indices [] = [[]] ∧
      (∀ (m : Type → Type) [Monad m] [LawfulMonad m] (f : List Int64 → m Unit), each dims f = along (indices dims) f) ∧
      ∀ (σ : Type) (f : List Int64 → EStateM Fault σ Unit) s e t, each dims f s = .error e t ↔
        ∃ before idx later u, indices dims = before ++ idx :: later ∧ along before f s = .ok () u ∧ f idx u = .error e t :=
  ⟨indicesAscend dims,fun _ => memIndices,fun ⟨_,mem,le⟩ => indicesEmpty mem le,rfl,fun _ _ _ => eachIndices dims,
    fun _ f s e t => by rw [eachIndices,alongStops]⟩

end Box

namespace NdArray

open Box (Below Inside indices)

variable {α : Type} {a : NdArray α} {idx : List Int64}

def Placed (a : NdArray α) : Prop :=
  Set.BijOn a.offset {idx | a.inBounds idx = true} ((fun p : Nat => .ok (Int64.ofNat p)) '' Set.Iio a.data.size)

/-- Vectors in bounds and places in the data correspond, so that reading and writing succeed, and a write shows only where
it was made. -/
structure Addressable (a : NdArray α) : Prop where
  places : a.Placed
  reads : ∀ idx, a.inBounds idx = true → ∃ x, a.get idx = .ok x
  writes : ∀ idx x, a.inBounds idx = true → ∃ b, a.set idx x = .ok b ∧ b.get idx = .ok x ∧
    ∀ other, other ≠ idx → b.get other = a.get other

theorem offsetBelow {dims : List Int64} (length : idx.length = dims.length) (o : Int64) :
    (offsetFrom? o dims idx).isSome = true ↔ Below idx dims := by
  induction dims generalizing idx o with
  | nil => simp [length_eq_zero_iff.mp length,offsetFrom?,Below]
  | cons d dims ih =>
    cases idx with
    | nil => cases length
    | cons x idx =>
      rw [offsetFrom?,Below,forall₂_cons]
      split
      · rename_i outside
        simp only [Option.isSome_none,Bool.false_eq_true,false_iff]
        rintro ⟨⟨nonneg,lt⟩,-⟩
        exact outside.elim (Int64.not_lt.mpr nonneg) (Int64.not_le.mpr lt)
      · rename_i inside
        rw [not_or,Int64.not_lt,Int64.not_le] at inside
        rw [ih (Nat.succ.inj length)]
        exact (and_iff_right inside).symm

theorem inBoundsIff : a.inBounds idx = true ↔ idx ∈ indices a.type.dims := by
  rw [Box.memIndices,inBounds,Bool.and_eq_true,beq_iff_eq]
  exact ⟨fun both => (offsetBelow both.1 0).mp both.2,fun below => ⟨below.length_eq,(offsetBelow below.length_eq 0).mpr below⟩⟩

theorem inBoundsOk : a.inBounds idx = true ↔ ∃ p, a.offset idx = .ok p := by
  rw [inBounds,offset,Bool.and_eq_true,beq_iff_eq]
  split
  · rename_i other
    simp [other]
  · rename_i same
    cases offsetFrom? 0 a.type.dims idx <;> simp [not_not.mp same]

theorem Placed.addressable (placed : a.Placed) (fits : a.data.size < wordBound) : a.Addressable := by
  obtain ⟨into,apart,-⟩ := id placed
  refine ⟨placed,fun idx inside => ?_,fun idx x inside => ?_⟩
  · obtain ⟨p,lt,found⟩ := into inside
    rw [getAt (Nat.lt_trans lt fits) found.symm,Array.getElem?_eq_getElem lt]
    exact ⟨_,rfl⟩
  · obtain ⟨p,lt,found⟩ := into inside
    have small : p < wordBound := Nat.lt_trans lt fits
    let b : NdArray α := ⟨a.type,a.data.setIfInBounds p x⟩
    refine ⟨b,?_,?_,fun other different => ?_⟩
    · rw [set,← found,Outcome.bindOfOk,(placeAt small).mpr ⟨lt,rfl⟩,Outcome.bindOfOk]
    · rw [getAt (a := b) small found.symm,Array.getElem?_setIfInBounds_self_of_lt lt]
      rfl
    · by_cases inside' : a.inBounds other = true
      · obtain ⟨q,ltQ,foundQ⟩ := into inside'
        have apart : p ≠ q := by
          rintro rfl
          exact different (apart inside' inside (foundQ.symm.trans found))
        have smallQ : q < wordBound := Nat.lt_trans ltQ fits
        rw [getAt smallQ foundQ.symm,getAt (a := b) smallQ foundQ.symm,Array.getElem?_setIfInBounds_ne apart]
      · cases missed : a.offset other with
        | ok p => exact absurd (inBoundsOk.mpr ⟨p,missed⟩) inside'
        | error e =>
          have missed' : b.offset other = .error e := missed
          rw [get,get,missed,missed']
          rfl

theorem Placed.count (placed : a.Placed) (fits : a.data.size < wordBound) :
    (indices a.type.dims).length = a.data.size := by
  obtain ⟨into,apart,onto⟩ := placed
  have distinct : ((indices a.type.dims).map a.offset).Nodup :=
    (Box.indicesNodup _).map_on fun x memX y memY same => apart (inBoundsIff.mpr memX) (inBoundsIff.mpr memY) same
  have distinctPlaces : ((List.range a.data.size).map fun p => (.ok (Int64.ofNat p) : Outcome Int64)).Nodup :=
    nodup_range.map_on fun p memP q memQ same => Word.ofNatInj ((mem_range.mp memP).trans fits)
      ((mem_range.mp memQ).trans fits) (Except.ok.inj same)
  have perm := (perm_ext_iff_of_nodup distinct distinctPlaces).mpr fun o => by
    simp only [mem_map,mem_range]
    constructor
    · rintro ⟨idx,mem,rfl⟩
      exact into (inBoundsIff.mpr mem)
    · intro place
      obtain ⟨idx,inside,rfl⟩ := onto place
      exact ⟨idx,inBoundsIff.mp inside,rfl⟩
  simpa using perm.length_eq

theorem Full.placed {ns} (full : a.Full ns) : a.Placed := by
  have vector {idx} (inside : a.inBounds idx = true) : ∃ is, idx = words is ∧ Inside is ns :=
    full.offsetOk (inBoundsOk.mp inside).choose_spec
  refine ⟨fun idx inside => ?_,fun idx inside idx' inside' same => ?_,?_⟩
  · obtain ⟨is,rfl,below⟩ := vector inside
    exact ⟨position ns is,full.size ▸ positionLt below,(full.offset below).symm⟩
  · obtain ⟨is,rfl,below⟩ := vector inside
    obtain ⟨js,rfl,below'⟩ := vector inside'
    rw [full.offset below,full.offset below'] at same
    rw [positionInj below below' (Word.ofNatInj (full.positionSmall below) (full.positionSmall below') (Except.ok.inj same))]
  · rintro _ ⟨p,lt,rfl⟩
    obtain ⟨is,below,rfl⟩ := positionSurj (full.size ▸ lt)
    exact ⟨words is,inBoundsInside full.dims full.small below,full.offset below⟩

theorem placedOfCount (fits : a.data.size < wordBound) (count : (indices a.type.dims).length = a.data.size) :
    a.Placed := by
  by_cases negative : ∃ d ∈ a.type.dims, d < 0
  · obtain ⟨d,mem,lt⟩ := negative
    have none_ := Box.indicesEmpty mem (Int64.le_of_lt lt)
    rw [none_,length_nil] at count
    have outside : {idx | a.inBounds idx = true} = ∅ := by
      ext idx
      simp [inBoundsIff,none_]
    rw [Placed,outside,← count]
    simp
  · obtain ⟨ns,small,dims⟩ := wordsOfNonneg fun d mem => Int64.not_lt.mp fun lt => negative ⟨d,mem,lt⟩
    rw [dims,Box.indicesWords small,length_map,Box.gridLength] at count
    exact Full.placed ⟨dims,small,count.symm,count ▸ fits⟩

/-- An array that is accepted is addressable if and only if it has an element for each vector of its box, counted without
wrapping; in particular if no extent is negative and all elements can be counted. -/
theorem acceptedAddressable {t : ValueType} {data : Array α} (ok : ofData t data = .ok a) (fits : data.size < wordBound) :
    (a.Addressable ↔ (t.dims.map Int64.toNatClampNeg).prod = data.size) ∧
      ((∀ d ∈ t.dims, 0 ≤ d) → t.exactCount < 2 ^ 63 → a.Addressable) := by
  rw [ofData] at ok
  split at ok
  · exact absurd ok Outcome.failOk
  · split at ok
    · exact absurd ok Outcome.failOk
    · rename_i counted
      cases ok
      rw [← Box.indicesLength]
      refine ⟨⟨fun able => able.places.count fits,fun count => (placedOfCount fits count).addressable fits⟩,?_⟩
      intro nonneg exact_
      obtain ⟨ns,small,dims⟩ := wordsOfNonneg nonneg
      rw [ValueType.exactCount,dims,exactProductWords small] at exact_
      rw [not_not,ValueType.numElements,dims,countWords] at counted
      have size := Word.ofNatInj (by exact_mod_cast exact_) fits counted
      exact (Full.placed ⟨dims,small,size.symm,size ▸ fits⟩).addressable fits

theorem acceptedAddressableSix : ofData (.tensor .f32 [2, 3]) #[1, 2, 3, 4, 5, 6] =
      .ok (⟨.tensor .f32 [2, 3], #[1, 2, 3, 4, 5, 6]⟩ : NdArray Int) ∧
    Addressable (⟨.tensor .f32 [2, 3], #[1, 2, 3, 4, 5, 6]⟩ : NdArray Int) := by
  have ok : ofData (.tensor .f32 [2, 3]) #[1, 2, 3, 4, 5, 6] =
    .ok (⟨.tensor .f32 [2, 3], #[1, 2, 3, 4, 5, 6]⟩ : NdArray Int) := rfl
  exact ⟨ok,(acceptedAddressable ok (by decide)).1.mpr rfl⟩

/-- Arrays that are accepted, the first without elements and with an index in bounds, the second with elements and no
index in bounds. -/
theorem acceptedUnaddressable :
    ofData (.tensor .f32 [4294967296, 4294967296]) #[] =
      .ok (⟨.tensor .f32 [4294967296, 4294967296], #[]⟩ : NdArray Int) ∧
    inBounds (⟨.tensor .f32 [4294967296, 4294967296], #[]⟩ : NdArray Int) [0, 0] = true ∧
    get (⟨.tensor .f32 [4294967296, 4294967296], #[]⟩ : NdArray Int) [0, 0] = Outcome.abort ∧
    ofData (.tensor .f32 [-2, -2]) #[1, 2, 3, 4] = .ok (⟨.tensor .f32 [-2, -2], #[1, 2, 3, 4]⟩ : NdArray Int) ∧
    Box.indices [-2, -2] = [] :=
  ⟨rfl,rfl,rfl,rfl,rfl⟩

end NdArray

end TileLower

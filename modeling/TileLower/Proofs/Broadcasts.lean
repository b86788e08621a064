import TileLower.Proofs.Dispatches

/-!
Broadcasts of an input to two dimensions, as a kernel addresses them: by the leading dimension and the kind of a
broadcast.
-/
namespace TileLower

open List Outcome Primitive NdArray

def NdArray.element {α : Type} (a : NdArray α) (off : Int64) : Outcome α :=
  if off < 0 then abort else ofOption a.data[off.toNatClampNeg]?

namespace Broadcast

def address (ld i j : Int64) : Broadcast → Int64
  | .full => i * ld + j
  | .row => j
  | .column => i * ld
  | .scalar => 0

def along (extent x : Int64) : Int64 := if extent = 1 then 0 else x

@[simp] theorem alongOne (x : Int64) : along 1 x = 0 := rfl

theorem alongOther {extent x} (other : extent ≠ 1) : along extent x = x := if_neg other

def replicated (dims : List Int64) (i j : Int64) : Int64 :=
  along (aligned dims).1 i * (aligned dims).2 + along (aligned dims).2 j

variable {t out : ValueType} {rows columns : Int64}

theorem onlyZero {i : Int64} (nonneg : 0 ≤ i) (below : i < 1) : i = 0 := by
  rw [Int64.le_iff_toInt_le] at nonneg
  rw [Int64.lt_iff_toInt_lt] at below
  rw [← Int64.toInt_inj]
  simp only [Int64.toInt_one,Int64.toInt_zero] at *
  omega

theorem oneOrMore {n : Int64} (pos : 0 < n) : n = 1 ∨ 1 < n :=
  (extentCases n).elim (fun empty => absurd pos (Int64.not_lt.mpr empty.1)) fun h => h.imp_right And.left

/- Extents of one on both sides are classified as full. The coordinate is zero there, so nothing is read amiss. -/
theorem pairClassified {r c : Int64} {message : String} (someRows : 0 < rows) (someColumns : 0 < columns)
    (rowsFit : r = 1 ∨ r = rows) (columnsFit : c = 1 ∨ c = columns) (more : ¬ (r = 1 ∧ c = 1)) :
    ∃ ld kind, (if c = 1 ∧ 1 < columns then .ok (c, .column) else if r = 1 ∧ 1 < rows then .ok (c, .row)
        else if r = rows ∧ c = columns then .ok (c, .full) else internal message) =
          (.ok (ld, kind) : Outcome (Int64 × Broadcast)) ∧
      ∀ i j, 0 ≤ i → i < rows → 0 ≤ j → j < columns → address ld i j kind = along r i * c + along c j := by
  by_cases column : c = 1
  · subst column
    have other : r ≠ 1 := fun one => more ⟨one,rfl⟩
    obtain rfl := rowsFit.resolve_left other
    rcases oneOrMore someColumns with rfl | wide
    · refine ⟨1,.full,by simp [other],fun i j _ _ nonneg below => ?_⟩
      obtain rfl := onlyZero nonneg below
      simp [address,alongOther other]
    · exact ⟨1,.column,by simp [wide],fun i j _ _ _ _ => by simp [address,alongOther other]⟩
  · obtain rfl := columnsFit.resolve_left column
    by_cases row : r = 1
    · subst row
      rcases oneOrMore someRows with rfl | tall
      · refine ⟨c,.full,by simp [column],fun i j nonneg below _ _ => ?_⟩
        obtain rfl := onlyZero nonneg below
        simp [address,alongOther column]
      · exact ⟨c,.row,by simp [column,tall],fun i j _ _ _ _ => by simp [address,alongOther column]⟩
    · obtain rfl := rowsFit.resolve_left row
      exact ⟨c,.full,by simp [column,row],fun i j _ _ _ _ => by
        simp [address,alongOther column,alongOther row]⟩

theorem alignedOnes {dims : List Int64} (ones : dims.all (· == 1) = true) : aligned dims = (1, 1) := by
  rcases dims with _ | ⟨r,_ | ⟨c,_ | _⟩⟩
  · rfl
  · simp_all [aligned]
  · simp_all [aligned]
  · rfl

theorem classified (ok : verifyBroadcast t out = .ok ()) (dims : out.dims = [rows, columns])
    (plain : t.isShaped = true ∨ t.dims = []) (someRows : 0 < rows) (someColumns : 0 < columns) :
    ∃ ld kind, classify t [rows, columns] = .ok (ld, kind) ∧
      ∀ i j, 0 ≤ i → i < rows → 0 ≤ j → j < columns → address ld i j kind = replicated t.dims i j := by
  have single (ones : t.dims.all (· == 1) = true) (i j : Int64) : address 1 i j .scalar = replicated t.dims i j := by
    simp [address,replicated,alignedOnes ones]
  unfold classify
  split
  · rename_i scalar
    exact ⟨1,.scalar,rfl,fun i j _ _ _ _ => single (by rw [plain.resolve_left scalar]; rfl) i j⟩
  · rename_i shaped
    rw [not_not] at shaped
    split
    · rename_i ones
      exact ⟨1,.scalar,rfl,fun i j _ _ _ _ => single ones i j⟩
    · rename_i more
      rw [Bool.not_eq_true] at more
      rcases shapesOfBroadcast ok dims shaped more with ⟨shape,other⟩ | ⟨r,c,shape,rowsFit,columnsFit,two⟩
      · rw [shape,reshapeOne other]
        exact pairClassified someRows someColumns (.inl rfl) (.inr rfl) fun both => other both.2
      · rw [shape,reshapeTwo rowsFit columnsFit,if_neg]
        · exact pairClassified someRows someColumns rowsFit columnsFit two
        · rintro (clash | clash)
          · exact Int64.not_lt.mpr clash.2 someRows
          · exact Int64.not_lt.mpr clash.2 someColumns

/-- An axis longer than one against an output axis of one, beside an axis that is itself replicated. -/
def Crossed (dims : List Int64) (rows columns : Int64) : Prop :=
  1 < (aligned dims).1 ∧ rows = 1 ∧ (aligned dims).2 = 1 ∧ 1 < columns ∨
    (aligned dims).1 = 1 ∧ 1 < rows ∧ 1 < (aligned dims).2 ∧ columns = 1

def Retained (lo hi : Int64) : Prop := lo = 1 ∨ lo = hi ∨ 1 < lo ∧ hi = 1

instance (lo hi : Int64) : Decidable (Retained lo hi) := inferInstanceAs (Decidable (_ ∨ _))

instance (dims : List Int64) (rows columns : Int64) : Decidable (Crossed dims rows columns) :=
  inferInstanceAs (Decidable (_ ∨ _))

theorem reshapeKeeps {hi lo : Int64} (pos : 0 < hi) (his los : List Int64) : reshapeReversed (hi :: his) (lo :: los) =
    if Retained lo hi then (reshapeReversed his los).map (lo :: ·) else none := by
  rw [reshapeReversed]
  by_cases one : lo = 1
  · subst one
    rw [if_pos (show Retained 1 hi from .inl rfl)]
    rcases oneOrMore pos with rfl | large
    · simp
    · simp [large]
  · simp only [Retained,one,false_and,false_or,if_false,or_comm]

theorem reshapeRow (someColumns : 0 < columns) (c : Int64) {dims} :
    reshape [rows, columns] [c] = .ok dims ↔ Retained c columns ∧ dims = [1, c] := by
  rw [reshape,if_neg (by simp)]
  simp only [reverse_cons,reverse_nil,nil_append,singleton_append,reshapeKeeps someColumns]
  by_cases kept : Retained c columns
  · simp [kept,reshapeReversed,eq_comm]
  · simp [kept,internal,raise]

theorem reshapePair (someRows : 0 < rows) (someColumns : 0 < columns) (r c : Int64) {dims} :
    reshape [rows, columns] [r, c] = .ok dims ↔ (Retained r rows ∧ Retained c columns) ∧ dims = [r, c] := by
  rw [reshape,if_neg (by simp)]
  simp only [reverse_cons,reverse_nil,nil_append,singleton_append,reshapeKeeps someColumns,
    reshapeKeeps someRows]
  by_cases row : Retained r rows
  · by_cases column : Retained c columns
    · simp [row,column,reshapeReversed,eq_comm]
    · simp [row,column,internal,raise]
  · simp [row,internal,raise]

theorem pairFits {r c message made} (rowsKept : Retained r rows) (columnsKept : Retained c columns)
    (apart : ¬ Crossed [r, c] rows columns)
    (ok : (if c = 1 ∧ 1 < columns then .ok (c, .column) else if r = 1 ∧ 1 < rows then .ok (c, .row)
      else if r = rows ∧ c = columns then .ok (c, .full) else internal message) =
        (.ok made : Outcome (Int64 × Broadcast))) :
    FitsPlane rows columns [r, c] := by
  split at ok
  · rename_i column
    refine .two (rowsKept.imp_right fun kept => kept.resolve_right fun long => apart (.inl ?_)) (.inl column.1)
    exact ⟨long.1,long.2,column⟩
  · split at ok
    · rename_i row
      refine .two (.inl row.1) (columnsKept.imp_right fun kept => kept.resolve_right fun long => apart (.inr ?_))
      exact ⟨row.1,row.2,long⟩
    · split at ok
      · rename_i full
        exact .two (.inr full.1) (.inr full.2)
      · cases ok

theorem broadcastOfFits {t out : ValueType} (fits : FitsPlane rows columns t.dims) (dims : out.dims = [rows, columns]) :
    verifyBroadcast t out = .ok () := by
  rw [verifyBroadcast,ValueType.rank,ValueType.rank,dims]
  generalize t.dims = shape at fits
  cases fits <;> simp_all [broadcastable]

/-- Broadcast classification rejects everything else. An axis longer than the output axis of one that it stands against is
not looked at beside an axis that is replicated, so such inputs are left out. -/
theorem classifiedFits {input : ValueType} (shaped : input.isShaped = true) (someRows : 0 < rows)
    (someColumns : 0 < columns) (apart : ¬ Crossed input.dims rows columns) :
    (∃ ld kind, classify input [rows, columns] = .ok (ld, kind)) ↔
      input.dims.all (· == 1) = true ∨ FitsPlane rows columns input.dims := by
  constructor
  · rintro ⟨ld,kind,ok⟩
    rw [classify,if_neg (by simp [shaped])] at ok
    split at ok
    · exact .inl ‹_›
    · obtain ⟨dims,reshaped,ok⟩ := Outcome.bindOk.mp ok
      right
      generalize input.dims = shape at reshaped apart
      rcases shape with _ | ⟨r,_ | ⟨c,_ | ⟨d,rest⟩⟩⟩
      · exact .none
      · obtain ⟨kept,rfl⟩ := (reshapeRow someColumns r).mp reshaped
        have fits := pairFits (.inl rfl) kept apart ok
        cases fits with
        | two _ columnsFit => exact .one columnsFit
      · obtain ⟨⟨rowsKept,columnsKept⟩,rfl⟩ := (reshapePair someRows someColumns r c).mp reshaped
        exact pairFits rowsKept columnsKept apart ok
      · rw [reshape,if_pos (by simp)] at reshaped
        cases reshaped
  · rintro (ones | fits)
    · exact ⟨1,.scalar,by rw [classify,if_neg (by simp [shaped]),if_pos ones]⟩
    · obtain ⟨ld,kind,ok,-⟩ := classified (broadcastOfFits fits (show (ValueType.buffer .f32 [rows, columns]).dims = _ from rfl))
        rfl (.inl shaped) someRows someColumns
      exact ⟨ld,kind,ok⟩

theorem classifiedFitsRows : ¬ ∃ ld kind, classify (.tensor .f32 [3, 4]) [1, 4] = .ok (ld, kind) := by
  intro made
  rcases (classifiedFits rfl (by decide) (by decide) (by decide)).mp made with ones | fits
  · cases ones
  · cases fits with
    | two rowsFit _ => exact absurd rowsFit (by decide)

/- A single element is classified whatever the number of its axes. So is a column of three elements against one row of
four, a row of three against one column of four. -/
theorem misfitsClassified :
    (classify (.tensor .f32 [1, 1, 1]) [2, 3] = .ok (1, .scalar) ∧ ¬ FitsPlane 2 3 [1, 1, 1]) ∧
      (classify (.tensor .f32 [3, 1]) [1, 4] = .ok (1, .column) ∧ ¬ FitsPlane 1 4 [3, 1]) ∧
      classify (.tensor .f32 [3]) [4, 1] = .ok (3, .row) ∧ ¬ FitsPlane 4 1 [3] := by
  refine ⟨⟨rfl,nofun⟩,⟨rfl,fun fits => ?_⟩,rfl,fun fits => ?_⟩
  · cases fits with
    | two rowsFit _ => exact absurd rowsFit (by decide)
  · cases fits with
    | one columnsFit => exact absurd columnsFit (by decide)

end Broadcast

namespace Eval

open Broadcast

variable {α : Type} {rows columns i j : Int64}

theorem alongInside {extent whole x} (fits : extent = 1 ∨ extent = whole) (nonneg : 0 ≤ x) (below : x < whole) :
    ¬ (along extent x < 0 ∨ extent ≤ along extent x) := by
  by_cases one : extent = 1
  · rw [one,alongOne]
    decide
  · obtain rfl := fits.resolve_left one
    rw [alongOther one]
    exact fun outside => outside.elim (Int64.not_lt.mpr nonneg) (Int64.not_le.mpr below)

theorem broadcastIndexRun {t : ValueType} (rank : t.rank ≤ 2) :
    broadcastIndex t [i, j] = .ok (([i, j].drop (2 - t.rank)).zipWith (fun x d => along d x) t.dims) :=
  if_neg (Nat.not_lt.mpr rank)

theorem broadcastOffset {a : NdArray α} (fits : FitsPlane rows columns a.type.dims) (hi : 0 ≤ i) (iLt : i < rows)
    (hj : 0 ≤ j) (jLt : j < columns) :
    (broadcastIndex a.type [i, j] >>= a.offset) = .ok (replicated a.type.dims i j) := by
  generalize shape : a.type.dims = dims at fits
  have rank : a.type.rank = dims.length := by rw [ValueType.rank,shape]
  cases fits with
  | none =>
    rw [broadcastIndexRun (by simp [rank])]
    simp [offset,rank,shape,offsetFrom?,replicated,aligned]
  | one columnsFit =>
    rw [broadcastIndexRun (by simp [rank])]
    simp [offset,rank,shape,offsetFrom?,replicated,aligned,alongInside columnsFit hj jLt]
  | two rowsFit columnsFit =>
    rw [broadcastIndexRun (by simp [rank])]
    simp [offset,rank,shape,offsetFrom?,replicated,aligned,alongInside rowsFit hi iLt,
      alongInside columnsFit hj jLt]

theorem broadcastReads {s : Machine α} {r} (fits : FitsPlane rows columns (s.arrayAt r).type.dims) (hi : 0 ≤ i)
    (iLt : i < rows) (hj : 0 ≤ j) (jLt : j < columns) :
    broadcastAt r [i, j] s = lift ((s.arrayAt r).element (replicated (s.arrayAt r).type.dims i j)) s := by
  obtain ⟨idx,index,offset⟩ := bindOk.mp (broadcastOffset fits hi iLt hj jLt)
  have got : (s.arrayAt r).get idx = (s.arrayAt r).element (replicated (s.arrayAt r).type.dims i j) := by
    rw [NdArray.get,offset]
    rfl
  rw [← got,broadcastAt,Step.bindOfOk (arrayRun r s),index]
  rfl

theorem fitsWords {dims} (fits : FitsPlane rows columns dims) (someRows : 0 < rows) (someColumns : 0 < columns) :
    ∃ ns, Small ns ∧ dims = words ns := by
  have word {extent whole : Int64} (fit : extent = 1 ∨ extent = whole) (pos : 0 < whole) :
      ∃ n, n < wordBound ∧ extent = Int64.ofNat n :=
    Word.existsOfNonneg (fit.elim (fun one => one ▸ by decide) fun same => same ▸ Int64.le_of_lt pos)
  cases fits with
  | none => exact ⟨[],nofun,rfl⟩
  | one columnsFit =>
    obtain ⟨c,small,rfl⟩ := word columnsFit someColumns
    exact ⟨[c],by simpa [Small] using small,rfl⟩
  | two rowsFit columnsFit =>
    obtain ⟨r,smallRows,rfl⟩ := word rowsFit someRows
    obtain ⟨c,smallColumns,rfl⟩ := word columnsFit someColumns
    exact ⟨[r, c],by simpa [Small] using ⟨smallRows,smallColumns⟩,rfl⟩

theorem replicatedThere {a : NdArray α} {t : ValueType} (ofType : a.OfType t) (small : t.exactCount < 2 ^ 63)
    (fits : FitsPlane rows columns t.dims) (hi : 0 ≤ i) (iLt : i < rows) (hj : 0 ≤ j) (jLt : j < columns) :
    ∃ x, a.element (replicated t.dims i j) = .ok x := by
  obtain ⟨ns,smallDims,dims⟩ := fitsWords fits (Int64.lt_of_le_of_lt hi iLt) (Int64.lt_of_le_of_lt hj jLt)
  have full := ofType.full dims smallDims small
  obtain rfl := ofType.type
  obtain ⟨idx,-,offset⟩ := bindOk.mp (broadcastOffset fits hi iLt hj jLt)
  obtain ⟨is,rfl,inside⟩ := full.offsetOk offset
  rw [full.offset inside,Except.ok.injEq] at offset
  have within : position ns is < a.data.size := full.size ▸ positionLt inside
  have below := full.positionSmall inside
  refine ⟨a.data[position ns is],?_⟩
  rw [← offset,element,if_neg (Word.notNegative below),Word.toNatOfNat below]
  simp [ofOption,within]

/-- Broadcast classification addresses the right elements: at the offset that leading dimension and kind give for the output
element `(i, j)` stands the element that evaluation replicates to it. A type that is not shaped must have no extents, since
the classification does not look at them and evaluation does. -/
theorem classificationAddresses {input out : ValueType} (ok : Primitive.verifyBroadcast input out = .ok ())
    (dims : out.dims = [rows, columns]) (someRows : 0 < rows) (someColumns : 0 < columns)
    (plain : input.isShaped = true ∨ input.dims = []) :
    ∃ ld kind, classify input [rows, columns] = .ok (ld, kind) ∧
      ∀ (s : Machine α) (r : Ref) (i j : Int64), (s.arrayAt r).type = input →
        0 ≤ i → i < rows → 0 ≤ j → j < columns →
          broadcastAt r [i, j] s = lift ((s.arrayAt r).element (kind.address ld i j)) s ∧
          ((s.arrayAt r).OfType input → input.exactCount < 2 ^ 63 → ∃ x, broadcastAt r [i, j] s = .ok x s) := by
  have fits : FitsPlane rows columns input.dims :=
    plain.elim (fitsOfBroadcast ok dims) fun scalar => scalar ▸ .none
  obtain ⟨ld,kind,found,address⟩ := classified ok dims plain someRows someColumns
  refine ⟨ld,kind,found,fun s r i j type hi iLt hj jLt => ?_⟩
  subst type
  have reads := broadcastReads fits hi iLt hj jLt
  refine ⟨by rw [address i j hi iLt hj jLt,reads],fun ofType small => ?_⟩
  obtain ⟨x,there⟩ := replicatedThere ofType small fits hi iLt hj jLt
  exact ⟨x,by rw [reads,there]; rfl⟩

theorem classificationAddressesColumn :
    ∃ ld kind, classify (.tensor .f32 [2, 1]) [2, 3] = .ok (ld, kind) ∧
      ∀ (s : Machine Int) (r : Ref) (i j : Int64), (s.arrayAt r).type = .tensor .f32 [2, 1] →
        0 ≤ i → i < 2 → 0 ≤ j → j < 3 →
          broadcastAt r [i, j] s = lift ((s.arrayAt r).element (kind.address ld i j)) s ∧
          ((s.arrayAt r).OfType (.tensor .f32 [2, 1]) → (ValueType.tensor .f32 [2, 1]).exactCount < 2 ^ 63 →
            ∃ x, broadcastAt r [i, j] s = .ok x s) :=
  classificationAddresses (show Primitive.verifyBroadcast _ (.buffer .f32 [2, 3]) = .ok () from rfl) rfl (by decide)
    (by decide) (.inl rfl)

def unshaped : NdArray Int := ⟨⟨.scalar,.f32,[2, 2]⟩,#[1, 2, 3, 4]⟩

/- The classification takes it for one element. Evaluation reads all four. -/
theorem unshapedMisaddressed :
    Primitive.verifyBroadcast unshaped.type (.buffer .f32 [2, 2]) = .ok () ∧
      classify unshaped.type [2, 2] = .ok (1, .scalar) ∧
      unshaped.element (address 1 1 1 .scalar) = .ok 1 ∧
      broadcastAt 0 [1, 1] ⟨#[unshaped], fun _ => none⟩ = .ok 4 ⟨#[unshaped], fun _ => none⟩ :=
  ⟨rfl,rfl,rfl,rfl⟩

end Eval
end TileLower

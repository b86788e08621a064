import TileLower.Proofs.Blockings
import TileLower.Proofs.Declines

/-!
Conversions are emitted, refused, or stop. Whether the tiles divide the shape is looked at before the layout is
checked. Main statement: `Relayout.emittersEnd`.
-/
namespace TileLower

open Outcome Drafting

namespace Layout

variable {d : Layout} {shape : List Int64}

theorem validateInnerAnswers {rank seen xs} : d.validateInner rank seen xs ≠ .abort := by
  induction xs generalizing seen with
  | nil => exact nofun
  | cons p xs ih =>
    unfold validateInner
    split
    · exact failAnswers
    · split
      · exact failAnswers
      · exact ih

theorem validateAnswers {rank} : d.validate rank ≠ .abort := by
  refine checkAnswers fun _ => bindAnswers validateInnerAnswers fun _ _ => checkAnswers fun _ => ?_
  split
  · exact nofun
  · split
    · exact failAnswers
    · exact nofun

theorem packedShapeOf (valid : d.validate (Int64.ofNat shape.length) = .ok ()) :
    ∃ blocked, d.packedShape shape = .ok blocked := by
  have entries {vec xs : List Int64} (within : ∀ p ∈ xs, 0 ≤ p ∧ p < Int64.ofNat vec.length) :
      ∃ out, entriesAt vec xs = .ok out := by
    induction xs with
    | nil => exact ⟨[],rfl⟩
    | cons p xs ih =>
      obtain ⟨here,later⟩ := List.forall_mem_cons.mp within
      obtain ⟨x,found⟩ := entryAtInside here.1 here.2
      obtain ⟨out,rest⟩ := ih later
      exact ⟨x :: out,by rw [entriesAt,entryAt,found,ofOption,bindOfOk,rest]; rfl⟩
  obtain ⟨out,moved⟩ : ∃ out, interchange (d.outerExtents shape) d.outer = .ok out := by
    obtain ⟨-,-,-,outer⟩ := validateOk.mp valid
    unfold interchange
    rcases outer with none_ | ⟨length,vector⟩
    · exact ⟨_,if_pos (by rw [none_]; rfl)⟩
    · split
      · exact ⟨_,rfl⟩
      · refine entries fun p mem => ?_
        rw [Permutation.isVector,Bool.and_eq_true,List.all_eq_true] at vector
        have range := vector.1 p mem
        rw [length] at range
        simpa [outerExtents] using range
  exact ⟨out ++ d.tiles,by rw [packedShape,valid,bindOfOk,moved,bindOfOk]⟩

theorem packedShapeInvalid (invalid : d.validate (Int64.ofNat shape.length) ≠ .ok ()) :
    ∃ cause, d.packedShape shape = .error (.error cause) := by
  cases found : d.validate (Int64.ofNat shape.length) with
  | ok u => exact absurd found invalid
  | error fault =>
    cases fault with
    | abort => exact absurd found validateAnswers
    | error cause => exact ⟨cause,by rw [packedShape,found]; rfl⟩

/-- Number `j` of the tiled axes has a known extent, and a tile that divides it. -/
def PassesAt (d : Layout) (shape : List Int64) (j : Nat) : Prop :=
  ∃ pos ext tile, d.inner[j]? = some pos ∧ pos < Int64.ofNat shape.length ∧ entryAt? shape pos = some ext ∧
    ext ≠ ValueType.dynamicSize ∧ d.tiles[j]? = some tile ∧ tile ≠ 0 ∧ ext % tile = 0

/-- Number `j` of the tiled axes cannot be looked at: it is negative, or its extent is known and it has no tile or a tile
of 0. -/
def TripsAt (d : Layout) (shape : List Int64) (j : Nat) : Prop :=
  ∃ pos, d.inner[j]? = some pos ∧ pos < Int64.ofNat shape.length ∧
    (pos < 0 ∨ ∃ ext, entryAt? shape pos = some ext ∧ ext ≠ ValueType.dynamicSize ∧ d.tiles[j]?.getD 0 = 0)

/-- The tiled axes are looked at in turn, up to one that cannot be. -/
def Trips (d : Layout) (shape : List Int64) : Prop := ∃ j, (∀ i < j, d.PassesAt shape i) ∧ d.TripsAt shape j

theorem PassesAt.notTrips {j : Nat} (passes : d.PassesAt shape j) : ¬ d.TripsAt shape j := by
  obtain ⟨pos,ext,tile,axis,-,extent,-,tiled,nonzero,-⟩ := passes
  rintro ⟨_,axis',-,negative | ⟨_,-,-,zero⟩⟩
  · cases axis.symm.trans axis'
    rw [entryAt?,if_pos negative] at extent
    cases extent
  · rw [tiled] at zero
    exact nonzero zero

theorem notTripsOf {j : Nat} (before : ∀ i < j, d.PassesAt shape i) (ends : ¬ d.PassesAt shape j)
    (fine : ¬ d.TripsAt shape j) : ¬ d.Trips shape := by
  rintro ⟨k,passed,trips⟩
  rcases Nat.lt_trichotomy k j with earlier | rfl | later
  · exact (before k earlier).notTrips trips
  · exact fine trips
  · exact ends (passed j later)

theorem dividesFromEnds {j : Nat} {rest : List Int64} (here : d.inner.drop j = rest)
    (before : ∀ i < j, d.PassesAt shape i) :
    (d.dividesFrom shape j rest = .abort ∧ d.Trips shape) ∨ ((∃ whole,
      d.dividesFrom shape j rest = .ok whole) ∧ ¬ d.Trips shape) := by
  induction rest generalizing j with
  | nil =>
    have none_ : d.inner[j]? = none := List.getElem?_eq_none (List.drop_eq_nil_iff.mp here)
    exact .inr ⟨⟨true,rfl⟩,notTripsOf before (by simp [PassesAt,none_]) (by simp [TripsAt,none_])⟩
  | cons pos rest ih =>
    have axis : d.inner[j]? = some pos := by rw [← List.head?_drop,here,List.head?_cons]
    unfold dividesFrom
    split
    · rename_i outside
      exact .inr ⟨⟨false,rfl⟩,notTripsOf before (by simp [PassesAt,axis,Int64.not_lt.mpr outside])
        (by simp [TripsAt,axis,Int64.not_lt.mpr outside])⟩
    rename_i inside
    rw [Int64.not_le] at inside
    rcases Int64.lt_or_le pos 0 with negative | nonneg
    · refine .inl ⟨?_,j,before,pos,axis,inside,.inl negative⟩
      rw [entryAt,entryAt?,if_pos negative]
      rfl
    obtain ⟨ext,extent⟩ := entryAtInside nonneg inside
    have counted := Int64.not_lt.mpr nonneg
    rw [entryAt,extent,ofOption,bindOfOk]
    split
    · rename_i unknown
      exact .inr ⟨⟨false,rfl⟩,notTripsOf before (by simp [PassesAt,axis,extent,unknown])
        (by simp [TripsAt,axis,extent,unknown,counted])⟩
    rename_i known
    cases tiled : d.tiles[j]? with
    | none => exact .inl ⟨rfl,j,before,pos,axis,inside,.inr ⟨ext,extent,known,by rw [tiled]; rfl⟩⟩
    | some tile =>
      rw [ofOption,bindOfOk]
      split
      · rename_i zero
        exact .inl ⟨rfl,j,before,pos,axis,inside,.inr ⟨ext,extent,known,by rw [tiled]; exact zero⟩⟩
      · rename_i nonzero
        split
        · rename_i uneven
          exact .inr ⟨⟨false,rfl⟩,notTripsOf before (by simp [PassesAt,axis,extent,tiled,uneven])
            (by simp [TripsAt,axis,tiled,nonzero,counted])⟩
        · rename_i even
          refine ih (by rw [← List.tail_drop,here,List.tail_cons]) fun i lt => ?_
          rcases Nat.lt_succ_iff_lt_or_eq.mp lt with earlier | rfl
          · exact before i earlier
          · exact ⟨pos,ext,tile,axis,inside,extent,known,tiled,nonzero,not_not.mp even⟩

theorem dividesEnds (shape) : (d.divides shape = .abort ∧ d.Trips shape) ∨
    ((∃ whole, d.divides shape = .ok whole) ∧ ¬ d.Trips shape) :=
  dividesFromEnds rfl fun _ lt => absurd lt (Nat.not_lt_zero _)

end Layout

namespace Relayout

open Layout

variable {e : Draft} {d : Layout} {b : Blanks} {v w : Value}

/-- How an emitter ends: it stops, or it refuses with a diagnostic and leaves the draft as it was, or the layout is valid
and the conversion is made. -/
inductive Ending (e : Draft) (trips valid : Prop) (made : Operand → Draft → Prop) :
    EStateM.Result Fault Draft Operand → Prop where
  | stopped (is : trips) : Ending e trips valid made (.error .abort e)
  | refused (isNot : ¬ trips) (cause : Diagnostic) : Ending e trips valid made (.error (.error cause) e)
  | emitted {x e'} (isNot : ¬ trips) (is : valid) (done : made x e') : Ending e trips valid made (.ok x e')

def destinationOp (t : ValueType) : Operation := if t.isTensor then Memory.emptyOp t else Memory.allocOp t

def Packed (e : Draft) (v : Value) (d : Layout) (b : Blanks) (x : Operand) (e' : Draft) : Prop :=
  ∃ t, d.packedType (e.graph.typeOf v) = .ok t ∧
    x = some (.result (e.graph.ops.size + if t.isTensor then 1 else 0) 0) ∧
    e' = (e.push (destinationOp t)).push (convertOp packKind (some v) (some (.result e.graph.ops.size 0)) t d b)

def Unpacked (e : Draft) (v w : Value) (d : Layout) (b : Blanks) (x : Operand) (e' : Draft) : Prop :=
  d.packedShape (e.graph.typeOf w).dims = .ok (e.graph.typeOf v).dims ∧
    x = some (if (e.graph.typeOf w).isTensor then .result e.graph.ops.size 0 else w) ∧
    e' = e.push (convertOp unpackKind (some v) (some w) (e.graph.typeOf w) d b)

theorem destinationRun (t : ValueType) :
    destination t e = .ok (.result e.graph.ops.size 0) (e.push (destinationOp t)) := by
  rw [destination,destinationOp]
  split
  · exact Memory.emptyRun t
  · exact Memory.allocRun t

theorem destinationType {t : ValueType} (shaped : t.isShaped = true) :
    (e.graph.push (destinationOp t)).typeOf (.result e.graph.ops.size 0) = t := by
  obtain ⟨kind,element,dims⟩ := t
  rw [Graph.typeOf,Graph.slot,Graph.pushNew]
  cases kind with
  | tensor => rfl
  | buffer => rfl
  | _ => cases shaped

theorem packEnds : Ending e ((e.graph.typeOf v).isShaped = true ∧ d.Trips (e.graph.typeOf v).dims)
    (d.validate (Int64.ofNat (e.graph.typeOf v).rank) = .ok ()) (Packed e v d b) (pack (some v) d b e) := by
  rw [pack,Step.bindOfOk (typeOfRun v),packedTypeOf]
  generalize flat : e.graph.typeOf v = t
  by_cases shaped : t.isShaped = true
  swap
  · rw [if_pos shaped]
    exact .refused (fun both => shaped both.1) _
  rw [if_neg (not_not.mpr shaped)]
  rcases d.dividesEnds t.dims with ⟨stops,trips⟩ | ⟨⟨whole,divides⟩,fine⟩
  · rw [stops]
    exact .stopped ⟨shaped,trips⟩
  rw [divides,bindOfOk]
  cases whole with
  | false => exact .refused (fun both => fine both.2) _
  | true =>
    rw [if_pos rfl]
    by_cases valid : d.validate (Int64.ofNat t.dims.length) = .ok ()
    swap
    · obtain ⟨cause,invalid⟩ := packedShapeInvalid valid
      rw [packedType,invalid]
      exact .refused (fun both => fine both.2) cause
    obtain ⟨dims,shape⟩ := packedShapeOf valid
    have packed : d.packedType t = .ok (t.withDims dims) := by rw [packedType,shape]; rfl
    have type := destinationType (e := e) (t := t.withDims dims) shaped
    rw [packed,Step.bindOfOk (liftOk.mpr ⟨rfl,rfl⟩),Step.bindOfOk (destinationRun _),emitRun,Draft.pushGraph,
      type]
    refine .emitted (fun both => fine both.2) valid ⟨_,flat ▸ packed,?_,rfl⟩
    split <;> simp

theorem unpackEnds :
    Ending e (d.Trips (e.graph.typeOf w).dims) (d.validate (Int64.ofNat (e.graph.typeOf w).rank) = .ok ())
      (Unpacked e v w d b) (unpack (some v) (some w) d b e) := by
  rcases d.dividesEnds (e.graph.typeOf w).dims with ⟨stops,trips⟩ | ⟨⟨whole,divides⟩,fine⟩
  · rw [unpack,Step.bindOfOk (typeOfRun w),stops]
    exact .stopped trips
  cases whole with
  | false =>
    rw [unpack,Step.bindOfOk (typeOfRun w),Step.bindOfOk (liftOk.mpr ⟨divides,rfl⟩)]
    exact .refused fine _
  | true =>
    by_cases valid : d.validate (Int64.ofNat (e.graph.typeOf w).rank) = .ok ()
    swap
    · obtain ⟨cause,invalid⟩ := packedShapeInvalid valid
      rw [unpack,Step.bindOfOk (typeOfRun w),Step.bindOfOk (liftOk.mpr ⟨divides,rfl⟩),invalid]
      exact .refused fine cause
    obtain ⟨dims,shape⟩ := packedShapeOf valid
    by_cases same : (e.graph.typeOf v).dims = dims
    · rw [← same] at shape
      rw [unpackRun divides shape]
      exact .emitted fine valid ⟨shape,rfl,rfl⟩
    · rw [unpack,Step.bindOfOk (typeOfRun w),Step.bindOfOk (liftOk.mpr ⟨divides,rfl⟩),if_pos rfl,
        Step.bindOfOk (liftOk.mpr ⟨shape,rfl⟩),Step.bindOfOk (typeOfRun v),if_pos same]
      exact .refused fine _

/-- Emitters stop only at a tiled axis that cannot be looked at; else they refuse and insert nothing, or insert the
conversion, and never with a layout that is not valid for the rank of the flat value. -/
theorem emittersEnd (e : Draft) (v w : Value) (d : Layout) (b : Blanks) :
    Ending e ((e.graph.typeOf v).isShaped = true ∧ d.Trips (e.graph.typeOf v).dims)
        (d.validate (Int64.ofNat (e.graph.typeOf v).rank) = .ok ()) (Packed e v d b) (pack (some v) d b e) ∧
      Ending e (d.Trips (e.graph.typeOf w).dims) (d.validate (Int64.ofNat (e.graph.typeOf w).rank) = .ok ())
        (Unpacked e v w d b) (unpack (some v) (some w) d b e) := ⟨packEnds,unpackEnds⟩

theorem emittersStop : [(⟨[-1], [], [2]⟩ : Layout), ⟨[0], [], [0]⟩, ⟨[0, 0], [], [2]⟩].Forall fun d =>
    let e := Draft.ofGraph (.ofArguments "f" [.tensor .f32 [4]])
    d.validate 1 ≠ .ok () ∧ pack (some (.argument 0 0)) d .kept e = .error .abort e ∧
      unpack (some (.argument 0 0)) (some (.argument 0 0)) d .kept e = .error .abort e :=
  ⟨⟨by decide,rfl,rfl⟩,⟨by decide,rfl,rfl⟩,⟨by decide,rfl,rfl⟩⟩

end Relayout

end TileLower

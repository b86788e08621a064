import TileLower.Proofs.Layouts
import TileLower.Proofs.Machines

/-!
Packing and unpacking. On full arrays a pack and an unpack are tables over the flat and the blocked box, and
the two tables undo each other up to the positions that have no flat vector.
-/
namespace TileLower

open Step

open Box (Inside grid)

variable {α : Type} [Scalar α] {rank : Nat} (T : Tiling rank)

namespace NdArray

def packed (a : NdArray α) (ns : List Nat) (t : ValueType) : NdArray α :=
  tabulate t (T.packed ns) fun y => if Inside (T.flat y) ns then a.cell ns (T.flat y) else Scalar.zero

def unpacked (a : NdArray α) (ns : List Nat) (t : ValueType) : NdArray α :=
  tabulate t ns fun x => a.cell (T.packed ns) (T.blocked x)

variable {T}

theorem packedCell {a : NdArray α} {ns x : List Nat} (length : ns.length = rank) (inside : Inside x ns) {t} :
    (a.packed T ns t).cell (T.packed ns) (T.blocked x) = a.cell ns x := by
  rw [packed,tabulateCell _ (T.blockedInside length inside),T.flatBlocked (inside.length_eq.trans length),if_pos inside]

theorem Full.packedGet {a : NdArray α} {ns x : List Nat} (length : ns.length = rank) {t}
    (full : (a.packed T ns t).Full (T.packed ns)) (inside : Inside x ns) :
    (a.packed T ns t).get (words (T.blocked x)) = .ok (a.cell ns x) := by
  rw [full.get (T.blockedInside length inside),packedCell length inside]

theorem unpackedPacked {a : NdArray α} {ns : List Nat} (length : ns.length = rank) (full : a.Full ns)
    (t : ValueType) : (a.packed T ns t).unpacked T ns a.type = a := by
  refine Eq.trans (tabulateCongr fun x hx => ?_) full.eqTabulate.symm
  exact packedCell length hx

theorem packedUnpacked {b : NdArray α} {ns} (t u : ValueType) :
    (b.unpacked T ns t).packed T ns u = tabulate u (T.packed ns) fun y =>
      if Inside (T.flat y) ns then b.cell (T.packed ns) y else Scalar.zero := by
  refine tabulateCongr fun y hy => ?_
  split
  · rename_i inside
    rw [unpacked,tabulateCell _ inside,T.blockedFlat (T.insideTiles hy)]
  · rfl

end NdArray

namespace Eval

def packPoint (m : AffineMap) (source dest : Ref) (idx : List Int64) : Exec α Unit := do
  let flat ← lift (m.eval idx)
  let a ← array source
  let x ← if a.inBounds flat then lift (a.get flat) else pure Scalar.zero
  store dest idx x

def unpackPoint (m : AffineMap) (source dest : Ref) (idx : List Int64) : Exec α Unit := do
  let flat ← lift (m.eval idx)
  if (← array dest).inBounds flat then store dest flat (← load source idx)

variable {T} {ns : List Nat} {s : Machine α} {source dest : Ref} {m : AffineMap}

section Steps

variable (map : T.Maps m) (length : ns.length = rank) (rounds : T.Rounds ns) (apart : source ≠ dest)

include map length rounds apart

theorem packPointRun (fullSource : (s.arrayAt source).Full ns) {b : NdArray α} (full : b.Full (T.packed ns))
    (valid : dest < s.memory.size) {y} (inside : Inside y (T.packed ns)) :
    packPoint m source dest (words y) (s.withArray dest b) = .ok () (s.withArray dest (b.put (T.packed ns) y
      (if Inside (T.flat y) ns then (s.arrayAt source).cell ns (T.flat y) else Scalar.zero))) := by
  have flat := map y (inside.length_eq.trans (T.packedLength ns))
  have bounds := fullSource.inBounds ((T.flatLength y).trans length.symm) (T.flatSmall rounds inside)
  have stored := storeWith valid full inside
  rw [packPoint,flat,bindOfOk (x := lift _) rfl,bindOfOk (arrayRun source _),s.withArrayOther b valid apart]
  by_cases within : Inside (T.flat y) ns
  · simp only [bounds.mpr within,if_true,fullSource.get within,if_pos within]
    exact (bindOfOk (x := lift _) rfl _).trans (stored _)
  · have out : ¬ (s.arrayAt source).inBounds (words (T.flat y)) = true := fun h => within (bounds.mp h)
    simp only [if_neg out,if_neg within]
    exact (bindOfOk (x := pure _) rfl _).trans (stored _)

theorem unpackPointRun (fullSource : (s.arrayAt source).Full (T.packed ns)) {b : NdArray α} (full : b.Full ns)
    (valid : dest < s.memory.size) {y} (inside : Inside y (T.packed ns)) :
    unpackPoint m source dest (words y) (s.withArray dest b) = .ok () (s.withArray dest
      (if Inside (T.flat y) ns then b.put ns (T.flat y) ((s.arrayAt source).cell (T.packed ns) y) else b)) := by
  have flat := map y (inside.length_eq.trans (T.packedLength ns))
  have here := s.withArrayOther b valid apart
  have bounds := full.inBounds ((T.flatLength y).trans length.symm) (T.flatSmall rounds inside)
  rw [unpackPoint,flat,bindOfOk (x := lift _) rfl,bindOfOk (arrayRun dest _),s.withArrayHere b valid]
  by_cases within : Inside (T.flat y) ns
  · have loaded := loadRun (s := s.withArray dest b) (here.symm ▸ fullSource) inside
    rw [if_pos (bounds.mpr within),bindOfOk loaded,here,storeWith valid full within,if_pos within]
  · have out : ¬ b.inBounds (words (T.flat y)) = true := fun h => within (bounds.mp h)
    rw [if_neg out,if_neg within]
    rfl

theorem packLoop (fullSource : (s.arrayAt source).Full ns) (full : (s.arrayAt dest).Full (T.packed ns)) :
    Box.each (words (T.packed ns)) (packPoint m source dest) s =
      .ok () (s.withArray dest ((s.arrayAt source).packed T ns (s.arrayAt dest).type)) := by
  let x (y : List Nat) : α := if Inside (T.flat y) ns then (s.arrayAt source).cell ns (T.flat y) else Scalar.zero
  have run := alongRun (grid (T.packed ns)) (fun y => packPoint m source dest (words y)) (s.withArray dest)
    (fun b y => b.put (T.packed ns) y (x y)) (·.Full (T.packed ns))
    (fun y hy b fullHere => ⟨packPointRun map length rounds apart fullSource fullHere (fullValid full)
      (Box.memGrid.mp hy),fullHere.put y _⟩) full
  rw [s.withArraySelf] at run
  rw [Box.eachAlong (T.packedSmall rounds),run]
  have written := full.putAll id x (grid (T.packed ns))
  have table : ((s.arrayAt source).packed T ns (s.arrayAt dest).type).Full (T.packed ns) :=
    NdArray.tabulateFull _ full.dims full.small full.fits
  refine congrArg (fun b => EStateM.Result.ok () (s.withArray dest b)) (written.1.ext table written.2 fun y hy => ?_)
  rw [NdArray.packed,NdArray.tabulateCell _ hy]
  exact full.putAllAt (fun i hi => Box.memGrid.mp hi) ⟨y,Box.memGrid.mpr hy,rfl⟩ fun i _ same => same ▸ rfl

theorem unpackLoop (fullSource : (s.arrayAt source).Full (T.packed ns)) (full : (s.arrayAt dest).Full ns) :
    Box.each (words (T.packed ns)) (unpackPoint m source dest) s =
      .ok () (s.withArray dest ((s.arrayAt source).unpacked T ns (s.arrayAt dest).type)) := by
  let x : List Nat → α := (s.arrayAt source).cell (T.packed ns)
  let inner := (grid (T.packed ns)).filter fun y => Inside (T.flat y) ns
  have run := alongRun (grid (T.packed ns)) (fun y => unpackPoint m source dest (words y)) (s.withArray dest)
    (fun b y => if Inside (T.flat y) ns then b.put ns (T.flat y) (x y) else b) (·.Full ns)
    (fun y hy b fullHere => ⟨unpackPointRun map length rounds apart fullSource fullHere (fullValid full)
      (Box.memGrid.mp hy),by split <;> [exact fullHere.put _ _; exact fullHere]⟩) full
  have folded : (grid (T.packed ns)).foldl (fun b y => if Inside (T.flat y) ns then b.put ns (T.flat y) (x y) else b)
      (s.arrayAt dest) = (s.arrayAt dest).putAll T.flat x ns inner := by
    simp [NdArray.putAll,inner,List.foldl_filter]
  rw [s.withArraySelf,folded] at run
  rw [Box.eachAlong (T.packedSmall rounds),run]
  have written := full.putAll T.flat x inner
  have table : ((s.arrayAt source).unpacked T ns (s.arrayAt dest).type).Full ns :=
    NdArray.tabulateFull _ full.dims full.small full.fits
  have insideAll (y : List Nat) (hy : y ∈ inner) : Inside (T.flat y) ns := by simpa using (List.mem_filter.mp hy).2
  refine congrArg (fun b => EStateM.Result.ok () (s.withArray dest b)) (written.1.ext table written.2 fun v hv => ?_)
  rw [NdArray.unpacked,NdArray.tabulateCell _ hv]
  have there : T.flat (T.blocked v) = v := T.flatBlocked (hv.length_eq.trans length)
  refine full.putAllAt insideAll ⟨T.blocked v,?_,there⟩ fun y hy at_ => ?_
  · simpa [inner,there,hv] using Box.memGrid.mpr (T.blockedInside length hv)
  · have fits := T.insideTiles (Box.memGrid.mp (List.mem_filter.mp hy).1)
    rw [← at_,T.blockedFlat fits]

end Steps

structure Converts (g : Graph) (id : OpId) (v w : Value) (T : Tiling rank) : Prop where
  source : (g.op id).operands[0]? = some (some v)
  dest : (g.op id).operands[1]? = some (some w)
  layout : (Relayout.layoutOf (g.op id)).Describes T
  result : (g.typeOf w).isTensor = true → 0 < (g.op id).results.length ∧ (g.op id).results.length < wordBound

variable {g : Graph} {id : OpId} {v w : Value}

theorem evalOpPack (kind : (g.op id).kind = Relayout.packKind) : (evalOp g id : Exec α Unit) = evalPack g id := by
  simp only [evalOp,kind]
  rfl

theorem evalOpUnpack (kind : (g.op id).kind = Relayout.unpackKind) :
    (evalOp g id : Exec α Unit) = evalUnpack g id := by
  simp only [evalOp,kind]
  rfl

section Runs

variable (converts : Converts g id v w T) (small : rank ≤ lengthLimit.toNatClampNeg) (length : ns.length = rank)
  (rounds : T.Rounds ns) (boundSource : s.env v = some source) (boundDest : s.env w = some dest)
  (apart : (g.typeOf w).isTensor = false → source ≠ dest)

include converts small boundSource

theorem evalPackLoop {u : Machine α} (out : output g id (some w) 0 s = .ok dest u)
    (flatRank : (u.arrayAt source).type.rank = rank) :
    ∃ m, T.Maps m ∧ evalPack g id s = Box.each (u.arrayAt dest).type.dims (packPoint m source dest) u := by
  obtain ⟨m,indexMap,map⟩ := converts.layout.indexMapOk small
  refine ⟨m,map,?_⟩
  rw [evalPack,bindOfOk (operandRun converts.source s),bindOfOk (valueRun boundSource),
    bindOfOk (operandRun converts.dest s),bindOfOk out,bindOfOk (arrayRun source u),flatRank,
    indexMap,bindOfOk (x := lift _) rfl,bindOfOk (arrayRun dest u)]
  rfl

omit [Scalar α] in
theorem evalUnpackLoop {u : Machine α} (out : output g id (some w) 0 s = .ok dest u)
    (flatRank : (u.arrayAt dest).type.rank = rank) :
    ∃ m, T.Maps m ∧ evalUnpack g id s = Box.each (u.arrayAt source).type.dims (unpackPoint m source dest) u := by
  obtain ⟨m,indexMap,map⟩ := converts.layout.indexMapOk small
  refine ⟨m,map,?_⟩
  rw [evalUnpack,bindOfOk (operandRun converts.source s),bindOfOk (valueRun boundSource),
    bindOfOk (operandRun converts.dest s),bindOfOk out,bindOfOk (arrayRun dest u),flatRank,
    indexMap,bindOfOk (x := lift _) rfl,bindOfOk (arrayRun source u)]
  rfl

include length rounds boundDest apart

theorem evalPackRun (fullSource : (s.arrayAt source).Full ns) (full : (s.arrayAt dest).Full (T.packed ns)) :
    evalPack g id s = .ok () (s.delivered g id w dest ((s.arrayAt source).packed T ns (s.arrayAt dest).type)) := by
  obtain ⟨r,u,out,here,there,other,delivered⟩ :=
    outputDelivers converts.result boundDest (fullValid fullSource) apart
  obtain ⟨m,map,loop⟩ := evalPackLoop converts small boundSource out (by rw [here,fullSource.rank,length])
  have run := packLoop (s := u) map length rounds other (here.symm ▸ fullSource) (there.symm ▸ full)
  rw [loop,there,full.dims]
  exact run.trans (by rw [delivered,here,there])

theorem evalUnpackRun (fullSource : (s.arrayAt source).Full (T.packed ns)) (full : (s.arrayAt dest).Full ns) :
    evalUnpack g id s =
      .ok () (s.delivered g id w dest ((s.arrayAt source).unpacked T ns (s.arrayAt dest).type)) := by
  obtain ⟨r,u,out,here,there,other,delivered⟩ :=
    outputDelivers converts.result boundDest (fullValid fullSource) apart
  obtain ⟨m,map,loop⟩ := evalUnpackLoop converts small boundSource out (by rw [there,full.rank,length])
  have run := unpackLoop (s := u) map length rounds other (here.symm ▸ fullSource) (there.symm ▸ full)
  rw [loop,here,fullSource.dims]
  exact run.trans (by rw [delivered,here,there])

end Runs

end Eval

end TileLower

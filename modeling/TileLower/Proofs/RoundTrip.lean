import TileLower.Program.Build
import TileLower.Proofs.Conversions
import TileLower.Proofs.Drafts

/-!
Packing and unpacking undo each other. A function converts its first argument into its second and that into
its third, both by one layout; what it returns is compared with what it was given.
-/
namespace TileLower

open Relayout

open Box (Inside grid)

namespace Eval

variable {α : Type}

theorem bindArgumentsRun (g : Graph) (i : Nat) (ss : List Slot) (rs : List Ref) (s : Machine α)
    (length : ss.length = rs.length) (valid : ∀ r ∈ rs, r < s.memory.size) (distinct : rs.Nodup)
    (types : ∀ k < rs.length, (s.arrayAt (rs.getD k 0)).type = (ss.getD k default).type) :
    ∃ (t : Machine α) (place : Nat → Ref), bindArguments g i ss rs s = .ok () t ∧
      (∀ k < rs.length, t.env (.argument Graph.body (i + k)) = some (place k) ∧
        t.arrayAt (place k) = s.arrayAt (rs.getD k 0) ∧ place k < t.memory.size ∧
        (place k ∈ rs ∨ s.memory.size ≤ place k)) ∧
      (∀ j k, j < rs.length → k < rs.length → place j = place k → j = k) ∧
      (∀ k < i, t.env (.argument Graph.body k) = s.env (.argument Graph.body k)) ∧
      s.memory.size ≤ t.memory.size ∧ ∀ q < s.memory.size, t.arrayAt q = s.arrayAt q := by
  induction rs generalizing i ss s with
  | nil =>
    refine ⟨s,fun _ => 0,?_,by simp,by simp,by simp,le_refl _,by simp⟩
    cases ss <;> rfl
  | cons r rs ih =>
    cases ss with
    | nil => simp at length
    | cons slot ss =>
      obtain ⟨hr,valid⟩ := List.forall_mem_cons.mp valid
      obtain ⟨fresh,distinct⟩ := List.nodup_cons.mp distinct
      have type : (s.arrayAt r).type = slot.type := by simpa using types 0 (by simp)
      rw [bindArgumentsCons type]
      have first : ∃ p u, (if slot.type.isTensor then s.bindFresh (.argument Graph.body i) (s.arrayAt r)
          else s.bound (.argument Graph.body i) r) = u ∧ u.env (.argument Graph.body i) = some p ∧
          (∀ k < i, u.env (.argument Graph.body k) = s.env (.argument Graph.body k)) ∧
          (∀ q < s.memory.size, u.arrayAt q = s.arrayAt q) ∧ u.arrayAt p = s.arrayAt r ∧
          s.memory.size ≤ u.memory.size ∧ p < u.memory.size ∧ p ∉ rs ∧ (p ∈ r :: rs ∨ s.memory.size ≤ p) := by
        split
        · refine ⟨s.memory.size,_,rfl,by simp,fun k hk => ?_,fun q hq => ?_,?_,by simp,by simp,
            fun mem => absurd (valid _ mem) (lt_irrefl _),.inr (le_refl _)⟩
          · simp [hk.ne]
          · rw [s.arrayAtOld hq]
          · rw [s.arrayAtNew]
        · exact ⟨r,_,rfl,by simp [Machine.bound],fun k hk => by simp [Machine.bound,hk.ne],
            fun _ _ => rfl,rfl,le_refl _,hr,fresh,.inl (.head _)⟩
      obtain ⟨p,u,same,here,before,kept,contents,grown,within,apart,origin⟩ := first
      rw [same]
      have inside (k : Nat) (hk : k < rs.length) : rs.getD k 0 < s.memory.size := by
        rw [List.getD_eq_getElem _ _ hk]
        exact valid _ (List.getElem_mem hk)
      obtain ⟨t,place,ok,bound,inj,earlier,larger,keptLater⟩ := ih (i + 1) ss u (by simpa using length)
        (fun q hq => (valid q hq).trans_le grown) distinct fun k hk => by
          rw [kept _ (inside k hk)]
          simpa using types (k + 1) (by simpa using hk)
      have apartFrom (k : Nat) (hk : k < rs.length) : p ≠ place k := by
        intro same
        rcases (bound k hk).2.2.2 with mem | new
        · exact apart (same ▸ mem)
        · exact absurd (same ▸ within) (Nat.not_lt.mpr new)
      refine ⟨t,fun k => k.casesOn p place,ok,fun k hk => ?_,fun j k hj hk eq => ?_,fun k hk => ?_,
        grown.trans larger,fun q hq => ?_⟩
      · cases k with
        | zero => exact ⟨(earlier i (by omega)).trans here,(keptLater p within).trans contents,
          within.trans_le larger,origin⟩
        | succ k =>
          have hk : k < rs.length := by simpa using hk
          obtain ⟨env,array,below,from_⟩ := bound k hk
          refine ⟨by rw [← env,Nat.add_right_comm,Nat.add_assoc],?_,below,?_⟩
          · rw [List.getD_cons_succ,← kept _ (inside k hk)]
            exact array
          · exact from_.imp (List.mem_cons_of_mem _) grown.trans
      · cases j with
        | zero => cases k with
          | zero => rfl
          | succ k => exact absurd eq (apartFrom k (by simpa using hk))
        | succ j => cases k with
          | zero => exact absurd eq.symm (apartFrom j (by simpa using hj))
          | succ k => rw [inj j k (by simpa using hj) (by simpa using hk) eq]
      · exact (earlier k (by omega)).trans (before k hk)
      · exact (keptLater q (hq.trans_le grown)).trans (kept q hq)

def conversions (first second : String) (d : Layout) (types : List ValueType) : Outcome Graph := do
  let arg (i : Nat) : Operand := some (.argument Graph.body i)
  let (_, g) ← Program.atEnd (Graph.ofArguments "convert" types) do
    let middle ← emit first (arg 0) (arg 1) d .kept
    let last ← emit second middle (arg 2) d .kept
    Memory.ret [last]
  .ok g

structure ConversionSteps (first second : String) (d : Layout) (t u v : ValueType) (g : Graph) : Prop where
  body : g.block Graph.body = ⟨[t, u, v].map Slot.ofType,[0, 1, 2],none⟩
  one : g.op 0 = { convertOp first (some (.argument Graph.body 0)) (some (.argument Graph.body 1)) u d .kept
    with block := some Graph.body }
  two : g.op 1 = { convertOp second (some (Machine.holder g 0 (.argument Graph.body 1)))
    (some (.argument Graph.body 2)) v d .kept with block := some Graph.body }
  return_ : (g.op 2).kind = Memory.returnKind ∧
    (g.op 2).operands = [some (Machine.holder g 1 (.argument Graph.body 2))]

theorem conversionsMade (first second : String) (d : Layout) (t u v : ValueType) :
    ∃ g, conversions first second d [t, u, v] = .ok g ∧ ConversionSteps first second d t u v g := by
  let start := Draft.ofGraph (Graph.ofArguments "convert" [t, u, v])
  let one := convertOp first (some (.argument Graph.body 0)) (some (.argument Graph.body 1)) u d .kept
  let middle := if u.isTensor then Value.result 0 0 else .argument Graph.body 1
  let two := convertOp second (some middle) (some (.argument Graph.body 2)) v d .kept
  let last := if v.isTensor then Value.result 1 0 else .argument Graph.body 2
  let ret : Operation := ⟨Memory.returnKind,[some last],[],OrderedMap.empty,none,none⟩
  have emitOne : emit first (some (.argument Graph.body 0)) (some (.argument Graph.body 1)) d .kept start =
      .ok (some middle) (start.push one) := by
    rw [emitRun]
    rfl
  have emitTwo : emit second (some middle) (some (.argument Graph.body 2)) d .kept (start.push one) =
      .ok (some last) ((start.push one).push two) := by
    rw [emitRun]
    rfl
  have made : conversions first second d [t, u, v] =
      .ok ((((start.push one).push two).push ret).graph.append Graph.body [0, 1, 2]) := by
    simp only [conversions,Program.atEnd]
    rw [Step.bindOfOk emitOne,Step.bindOfOk emitTwo]
    rfl
  exact ⟨_,made,rfl,rfl,rfl,rfl,rfl⟩

section Run

variable {first second : String} {d : Layout} {t u v : ValueType} {g : Graph}

theorem ConversionSteps.typeOf (steps : ConversionSteps first second d t u v g) :
    g.typeOf (.argument Graph.body 1) = u ∧ g.typeOf (.argument Graph.body 2) = v := by
  simp [Graph.typeOf,Graph.slot,steps.body,Slot.ofType]

theorem conversionsRun (steps : ConversionSteps first second d t u v g) (notReturn : first ≠ Memory.returnKind)
    (notReturn' : second ≠ Memory.returnKind) [Scalar α] {x y z b c : NdArray α} (hx : x.type = t) (hy : y.type = u)
    (hz : z.type = v)
    (one : ∀ (s : Machine α) p q, s.env (.argument Graph.body 0) = some p → s.arrayAt p = x →
      s.env (.argument Graph.body 1) = some q → s.arrayAt q = y → p ≠ q →
      evalOp g 0 s = .ok () (s.delivered g 0 (.argument Graph.body 1) q b))
    (two : ∀ (s : Machine α) p q, s.env (Machine.holder g 0 (.argument Graph.body 1)) = some p → s.arrayAt p = b →
      s.env (.argument Graph.body 2) = some q → s.arrayAt q = z → p ≠ q →
      evalOp g 1 s = .ok () (s.delivered g 1 (.argument Graph.body 2) q c)) :
    (run g #[x, y, z] [0, 1, 2]).results = .ok [c] := by
  have types : ∀ k < 3, ((⟨#[x, y, z],fun _ => none⟩ : Machine α).arrayAt ([0, 1, 2].getD k 0)).type =
      (([t, u, v].map Slot.ofType).getD k default).type := by
    rintro (_ | _ | _ | k) hk <;> [exact hx; exact hy; exact hz; omega]
  obtain ⟨s,place,bound,at_,inj,-⟩ := bindArgumentsRun g 0 ([t, u, v].map Slot.ofType) [0, 1, 2]
    (⟨#[x, y, z],fun _ => none⟩ : Machine α) rfl (by simp) (by decide) types
  obtain ⟨env0,array0,valid0,-⟩ := at_ 0 (by decide)
  obtain ⟨env1,array1,valid1,-⟩ := at_ 1 (by decide)
  obtain ⟨env2,array2,valid2,-⟩ := at_ 2 (by decide)
  have apart (j k : Nat) (hj : j < 3) (hk : k < 3) (ne : j ≠ k) : place j ≠ place k := fun h => ne (inj j k hj hk h)
  have apart21 := apart 2 1 (by decide) (by decide) (by decide)
  -- The first conversion leaves the third argument alone.
  have ranOne := one s _ _ env0 array0 env1 array1 (apart 0 1 (by decide) (by decide) (by decide))
  obtain ⟨q,envMiddle,arrayMiddle,-,apartMiddle⟩ := Machine.deliveredHolds g 0 b env1 valid1
  obtain ⟨env,array,valid⟩ := Machine.deliveredOther (w := .argument Graph.body 2) g (.argument Graph.body 1) b valid1
    valid2 apart21 (show _ ≠ Value.result 0 0 by simp)
  have ranTwo := two _ _ _ envMiddle arrayMiddle (env.trans env2) (array.trans array2)
    (apartMiddle _ valid2 apart21)
  obtain ⟨r,envLast,arrayLast,-⟩ := Machine.deliveredHolds g 1 c (env.trans env2) valid
  have kinds : (g.op 0).kind = first ∧ (g.op 1).kind = second := by rw [steps.one,steps.two]; exact ⟨rfl,rfl⟩
  have all : evalAll g [0, 1, 2] s = .ok [r] ((s.delivered g 0 (.argument Graph.body 1) (place 1) b).delivered g 1
      (.argument Graph.body 2) (place 2) c) := by
    rw [evalAll,if_neg (kinds.1 ▸ notReturn),Step.bindOfOk (locatedOk.mpr ranOne),evalAll,
      if_neg (kinds.2 ▸ notReturn'),Step.bindOfOk (locatedOk.mpr ranTwo),evalAll,if_pos steps.return_.1,
      steps.return_.2,values,Step.bindOfOk (valueRun envLast)]
    rfl
  have whole : evalFunction g [0, 1, 2] (⟨#[x, y, z],fun _ => none⟩ : Machine α) = evalAll g [0, 1, 2] s := by
    rw [evalFunction,steps.body,if_neg (by simp)]
    exact Step.bindOfOk bound _
  simp only [run,whole,all,List.map_cons,List.map_nil]
  exact congrArg (fun a => Except.ok [a]) arrayLast

end Run

section Inverse

variable [Scalar α] {d : Layout} {t u v : ValueType} {g : Graph} {ns : List Nat} {T : Tiling ns.length}

theorem ConversionSteps.convertsOne {first second} (steps : ConversionSteps first second d t u v g)
    (describes : d.Describes T) : Converts g 0 (.argument Graph.body 0) (.argument Graph.body 1) T where
  source := by rw [steps.one]; rfl
  dest := by rw [steps.one]; rfl
  layout := by rwa [layoutOfAttrs (l := d) (b := .kept) (by rw [steps.one]; rfl)]
  result := by
    rw [steps.typeOf.1,steps.one]
    intro tensor
    simp [convertOp,tensor,wordBound]

theorem ConversionSteps.convertsTwo {first second} (steps : ConversionSteps first second d t u v g)
    (describes : d.Describes T) :
    Converts g 1 (Machine.holder g 0 (.argument Graph.body 1)) (.argument Graph.body 2) T where
  source := by rw [steps.two]; rfl
  dest := by rw [steps.two]; rfl
  layout := by rwa [layoutOfAttrs (l := d) (b := .kept) (by rw [steps.two]; rfl)]
  result := by
    rw [steps.typeOf.2,steps.two]
    intro tensor
    simp [convertOp,tensor,wordBound]

section Runs

variable (describes : d.Describes T) (small : ns.length ≤ lengthLimit.toNatClampNeg) (rounds : T.Rounds ns)
  {x y z : NdArray α} (hx : x.type = t) (hy : y.type = u) (hz : z.type = v)

include describes small rounds hx hy hz

theorem unpackOfPackRun (steps : ConversionSteps packKind unpackKind d t u v g)
    (fullX : x.Full ns) (fullY : y.Full (T.packed ns)) (fullZ : z.Full ns) :
    (run g #[x, y, z] [0, 1, 2]).results = .ok [(x.packed T ns u).unpacked T ns v] := by
  refine conversionsRun steps (by decide) (by decide) hx hy hz (b := x.packed T ns u) ?_ ?_
  · intro s p q envP atP envQ atQ apart
    have kind : (g.op 0).kind = packKind := by rw [steps.one]; rfl
    rw [evalOpPack kind,evalPackRun (steps.convertsOne describes) small rfl rounds envP envQ (fun _ => apart)
      (atP.symm ▸ fullX) (atQ.symm ▸ fullY),atP,atQ,hy]
  · intro s p q envP atP envQ atQ apart
    have kind : (g.op 1).kind = unpackKind := by rw [steps.two]; rfl
    have packed : (x.packed T ns u).Full (T.packed ns) :=
      NdArray.tabulateFull _ (hy ▸ fullY.dims) fullY.small fullY.fits
    rw [evalOpUnpack kind,evalUnpackRun (steps.convertsTwo describes) small rfl rounds envP envQ (fun _ => apart)
      (atP.symm ▸ packed) (atQ.symm ▸ fullZ),atP,atQ,hz]

theorem packOfUnpackRun (steps : ConversionSteps unpackKind packKind d t u v g)
    (fullX : x.Full (T.packed ns)) (fullY : y.Full ns) (fullZ : z.Full (T.packed ns)) :
    (run g #[x, y, z] [0, 1, 2]).results = .ok [(x.unpacked T ns u).packed T ns v] := by
  refine conversionsRun steps (by decide) (by decide) hx hy hz (b := x.unpacked T ns u) ?_ ?_
  · intro s p q envP atP envQ atQ apart
    have kind : (g.op 0).kind = unpackKind := by rw [steps.one]; rfl
    rw [evalOpUnpack kind,evalUnpackRun (steps.convertsOne describes) small rfl rounds envP envQ (fun _ => apart)
      (atP.symm ▸ fullX) (atQ.symm ▸ fullY),atP,atQ,hy]
  · intro s p q envP atP envQ atQ apart
    have kind : (g.op 1).kind = packKind := by rw [steps.two]; rfl
    have unpacked : (x.unpacked T ns u).Full ns := NdArray.tabulateFull _ (hy ▸ fullY.dims) fullY.small fullY.fits
    rw [evalOpPack kind,evalPackRun (steps.convertsTwo describes) small rfl rounds envP envQ (fun _ => apart)
      (atP.symm ▸ unpacked) (atQ.symm ▸ fullZ),atP,atQ,hz]

end Runs

/-- Unpacking a packed array gives the array back, whatever the tiles and whatever the destinations held. Packing
an unpacked array gives it back with zeros at the indices that lie outside the flat shape, and there are none
if the tiles divide the shape. -/
theorem packUnpackInverse (d : Layout) (flat : ValueType) (rank : flat.rank ≤ lengthLimit.toNatClampNeg)
    (nonneg : ∀ n ∈ flat.dims, 0 ≤ n) (valid : d.validate (Int64.ofNat flat.rank) = .ok ())
    (rounds : d.RoundsUp flat.dims) (fits : flat.exactCount < 2 ^ 63) :
    ∃ shape m, d.packedShape flat.dims = .ok shape ∧ d.indexMap (Int64.ofNat flat.rank) = .ok m ∧
      ∀ blocked : ValueType, blocked.dims = shape → blocked.exactCount < 2 ^ 63 →
        (∃ g, conversions Relayout.packKind Relayout.unpackKind d [flat, blocked, flat] = .ok g ∧
          ∀ x y z : NdArray α, x.OfType flat → y.OfType blocked → z.OfType flat →
            (run g #[x, y, z] [0, 1, 2]).results = .ok [x]) ∧
        ∃ g, conversions Relayout.unpackKind Relayout.packKind d [blocked, flat, blocked] = .ok g ∧
          ∀ y x z : NdArray α, y.OfType blocked → x.OfType flat → z.OfType blocked →
            ∃ r, (run g #[y, x, z] [0, 1, 2]).results = .ok [r] ∧ r.OfType blocked ∧
              (∀ idx ∈ Box.indices shape, ∃ at_, m.eval idx = .ok at_ ∧
                r.get idx = if x.inBounds at_ then y.get idx else .ok Scalar.zero) ∧
              (d.divides flat.dims = .ok true → r = y) := by
  obtain ⟨ns,T,dims,small,describes,roundsT,shape⟩ := Layout.describedShape rank nonneg valid rounds
  have length : flat.rank = ns.length := by rw [ValueType.rank,dims,wordsLength]
  rw [length] at rank
  obtain ⟨m,indexMap,map⟩ := describes.indexMapOk rank
  refine ⟨words (T.packed ns),m,shape,length ▸ indexMap,fun blocked blockedDims blockedFits => ⟨?_,?_⟩⟩
  · obtain ⟨g,made,steps⟩ := conversionsMade Relayout.packKind Relayout.unpackKind d flat blocked flat
    refine ⟨g,made,fun x y z hx hy hz => ?_⟩
    have fullX := hx.full dims small fits
    rw [unpackOfPackRun describes rank roundsT hx.type hy.type hz.type steps fullX
      (hy.full blockedDims (T.packedSmall roundsT) blockedFits) (hz.full dims small fits)]
    rw [← hx.type,NdArray.unpackedPacked rfl fullX]
  · obtain ⟨g,made,steps⟩ := conversionsMade Relayout.unpackKind Relayout.packKind d blocked flat blocked
    refine ⟨g,made,fun y x z hy hx hz => ?_⟩
    have fullX := hx.full dims small fits
    have fullY := hy.full blockedDims (T.packedSmall roundsT) blockedFits
    have ran := packOfUnpackRun describes rank roundsT hy.type hx.type hz.type steps fullY fullX
      (hz.full blockedDims (T.packedSmall roundsT) blockedFits)
    rw [NdArray.packedUnpacked] at ran
    have fullR := NdArray.tabulateFull (fun p => if Inside (T.flat p) ns then y.cell (T.packed ns) p else Scalar.zero)
      blockedDims fullY.small fullY.fits
    refine ⟨_,ran,⟨rfl,?_⟩,fun idx mem => ?_,fun divides => ?_⟩
    · rw [fullR.size,ValueType.exactCount,blockedDims,exactProductWords fullY.small]
    · rw [Box.indicesWords fullY.small] at mem
      obtain ⟨p,hp,rfl⟩ := List.mem_map.mp mem
      have inside := Box.memGrid.mp hp
      refine ⟨_,map p (inside.length_eq.trans (T.packedLength ns)),?_⟩
      rw [fullR.get inside,NdArray.tabulateCell _ inside,fullY.get inside]
      have bounds := fullX.inBounds (T.flatLength p) (T.flatSmall roundsT inside)
      by_cases within : Inside (T.flat p) ns
      · rw [if_pos within,if_pos (bounds.mpr within)]
      · rw [if_neg within,if_neg fun h => within (bounds.mp h)]
    · have limit : lengthLimit.toNatClampNeg = 2 ^ 44 := by decide
      have tiles : T.Divides ns :=
        (describes.dividesIff (by rw [wordBound]; omega) rfl small).mp (dims ▸ divides)
      refine Eq.trans (NdArray.tabulateCongr fun p hp => ?_) (hy.type ▸ fullY.eqTabulate.symm)
      rw [if_pos (T.flatInside rfl tiles hp)]

theorem packUnpackInverseUneven :
    ∃ g, conversions Relayout.packKind Relayout.unpackKind ⟨[0], [1, 0], [2]⟩
        [.tensor .f32 [3, 2], .tensor .f32 [2, 2, 2], .tensor .f32 [3, 2]] = .ok g ∧
      ∀ x y z : NdArray Int, x.OfType (.tensor .f32 [3, 2]) → y.OfType (.tensor .f32 [2, 2, 2]) →
        z.OfType (.tensor .f32 [3, 2]) → (run g #[x, y, z] [0, 1, 2]).results = .ok [x] := by
  have rounds : Layout.RoundsUp ⟨[0],[1, 0],[2]⟩ [3, 2] := by
    rintro (_ | _ | axis) ext tile he ht <;> simp_all [Layout.tileOf?,Layout.innerIndex?]
    subst he ht
    decide
  obtain ⟨shape,m,packed,-,inverse⟩ := packUnpackInverse (α := Int) ⟨[0],[1, 0],[2]⟩
    (.tensor .f32 [3, 2]) (by decide +kernel) (by simp [ValueType.tensor]) (by decide +kernel) rounds (by decide +kernel)
  have blocked : shape = [2, 2, 2] := Except.ok.inj (packed.symm.trans (by decide +kernel))
  exact (inverse (.tensor .f32 [2, 2, 2]) blocked.symm (by decide +kernel)).1

end Inverse

end Eval

end TileLower

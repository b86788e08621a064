import TileLower.Proofs.Lowerings
import TileLower.Proofs.Operations
import TileLower.Proofs.Primitives

/-!
Dispatch of tile primitives to kernels. The check of a primitive and the classification of a broadcast agree but for
inputs of extent one along an axis that is empty in the output.
-/
namespace TileLower

open Primitive List Outcome TileLower.Graph Draft Kernel

namespace Broadcast

def aligned : List Int64 → Int64 × Int64
  | [r, c] => (r, c)
  | [c] => (1, c)
  | _ => (1, 1)

/-- An input with an extent of one, or a missing one, along an empty axis of the output. -/
def Clash (t : ValueType) (rows columns : Int64) : Prop :=
  t.isShaped = true ∧ t.dims.all (· == 1) = false ∧
    ((aligned t.dims).1 = 1 ∧ rows ≤ 0 ∨ (aligned t.dims).2 = 1 ∧ columns ≤ 0)

theorem extentCases (n : Int64) : n ≤ 0 ∧ n ≠ 1 ∧ ¬ 1 < n ∨ n = 1 ∨ 1 < n ∧ ¬ n ≤ 0 := by
  rw [Int64.le_iff_toInt_le,Int64.lt_iff_toInt_lt,Ne,← Int64.toInt_inj]
  simp only [Int64.toInt_one,Int64.toInt_zero]
  omega

/- An axis that is one or equal to that of the output is taken over, unless it clashes. -/
theorem reshapeStep {hi lo his los} (fits : lo = 1 ∨ lo = hi) : reshapeReversed (hi :: his) (lo :: los) =
      if lo = 1 ∧ hi ≤ 0 then none else (reshapeReversed his los).map (lo :: ·) := by
  rw [reshapeReversed]
  by_cases one : lo = 1
  · subst one
    rcases extentCases hi with ⟨empty,other,small⟩ | rfl | ⟨large,more⟩
    · simp [empty,small,other.symm]
    · simp
    · simp [large,more]
  · rw [if_neg fun both => one both.1,if_pos (.inr (fits.resolve_left one)),if_neg fun both => one both.1]

variable {t out : ValueType} {rows columns : Int64}

inductive FitsPlane (rows columns : Int64) : List Int64 → Prop
  | none : FitsPlane rows columns []
  | one {c : Int64} : (c = 1 ∨ c = columns) → FitsPlane rows columns [c]
  | two {r c : Int64} : (r = 1 ∨ r = rows) → (c = 1 ∨ c = columns) → FitsPlane rows columns [r, c]

theorem fitsOfBroadcast (ok : verifyBroadcast t out = .ok ()) (dims : out.dims = [rows, columns])
    (shaped : t.isShaped = true) : FitsPlane rows columns t.dims := by
  rw [verifyBroadcast,if_neg (by simp [shaped])] at ok
  split at ok
  · exact absurd ok failOk
  · split at ok
    · rename_i rank fits
      rw [ValueType.rank,ValueType.rank,dims] at rank
      rw [dims] at fits
      generalize t.dims = shape at rank fits
      rcases shape with _ | ⟨r,_ | ⟨c,_ | _⟩⟩
      · exact .none
      · exact .one (by simpa [broadcastable] using fits)
      · have both : (c = 1 ∨ c = columns) ∧ (r = 1 ∨ r = rows) := by simpa [broadcastable] using fits
        exact .two both.2 both.1
      · simp at rank
    · exact absurd ok failOk

theorem shapesOfBroadcast (ok : verifyBroadcast t out = .ok ()) (dims : out.dims = [rows, columns])
    (shaped : t.isShaped = true) (more : t.dims.all (· == 1) = false) :
    t.dims = [columns] ∧ columns ≠ 1 ∨
      ∃ r c, t.dims = [r, c] ∧ (r = 1 ∨ r = rows) ∧ (c = 1 ∨ c = columns) ∧ ¬ (r = 1 ∧ c = 1) := by
  have fits := fitsOfBroadcast ok dims shaped
  generalize t.dims = shape at more fits
  cases fits with
  | none => cases more
  | @one c fits =>
    have other : c ≠ 1 := by simpa using more
    obtain rfl := fits.resolve_left other
    exact .inl ⟨rfl,other⟩
  | two rowsFit columnsFit => exact .inr ⟨_,_,rfl,rowsFit,columnsFit,fun both => by simp [both] at more⟩

theorem reshapeOne (other : columns ≠ 1) : reshape [rows, columns] [columns] = .ok [1, columns] := by
  have step : reshapeReversed [columns, rows] [columns] = some [columns, 1] := by
    rw [reshapeStep (.inr rfl),if_neg fun clash => other clash.1]
    rfl
  rw [reshape,if_neg (by simp)]
  simp [step]

theorem reshapeTwo {r c} (rowsFit : r = 1 ∨ r = rows) (columnsFit : c = 1 ∨ c = columns) :
    reshape [rows, columns] [r, c] =
      if r = 1 ∧ rows ≤ 0 ∨ c = 1 ∧ columns ≤ 0 then
        internal ("broadcast semantics broken: cannot broadcast " ++ Text.showInts [r, c] ++ " to " ++
          Text.showInts [rows, columns])
      else .ok [r, c] := by
  have step : reshapeReversed [columns, rows] [c, r] =
      if r = 1 ∧ rows ≤ 0 ∨ c = 1 ∧ columns ≤ 0 then none else some [c, r] := by
    rw [reshapeStep columnsFit,reshapeStep rowsFit]
    by_cases column : c = 1 ∧ columns ≤ 0
    · simp [column]
    · by_cases row : r = 1 ∧ rows ≤ 0
      · simp [column,row]
      · simp [column,row,reshapeReversed]
  rw [reshape,if_neg (by simp)]
  simp only [reverse_cons,reverse_nil,nil_append,singleton_append,step]
  by_cases clash : r = 1 ∧ rows ≤ 0 ∨ c = 1 ∧ columns ≤ 0
  · simp [clash]
  · simp [clash]

theorem classifyCases (ok : verifyBroadcast t out = .ok ()) (dims : out.dims = [rows, columns]) :
    (¬ Clash t rows columns ∧ ∃ r, classify t out.dims = .ok r) ∨
      (Clash t rows columns ∧ ∃ message, classify t out.dims = internal message) := by
  unfold classify
  split
  · rename_i scalar
    exact .inl ⟨fun clash => scalar clash.1,_,rfl⟩
  · rename_i shaped
    rw [not_not] at shaped
    split
    · rename_i ones
      refine .inl ⟨fun clash => ?_,_,rfl⟩
      rw [clash.2.1] at ones
      cases ones
    · rename_i more
      rw [Bool.not_eq_true] at more
      rw [dims]
      rcases shapesOfBroadcast ok dims shaped more with ⟨shape,other⟩ | ⟨r,c,shape,rowsFit,columnsFit,two⟩
      · have clashes : Clash t rows columns ↔ rows ≤ 0 := by simp [Clash,shaped,shape,aligned,other]
        rw [shape,reshapeOne other]
        dsimp only
        rw [bindOfOk,clashes]
        dsimp only
        rw [if_neg fun column => other column.1]
        rcases extentCases rows with ⟨empty,none,small⟩ | rfl | ⟨large,more⟩
        · rw [if_neg fun row => small row.2,if_neg fun full => none full.1.symm]
          exact .inr ⟨empty,_,rfl⟩
        · exact .inl ⟨by decide,by simp⟩
        · rw [if_pos ⟨rfl,large⟩]
          exact .inl ⟨more,_,rfl⟩
      · have clashes : Clash t rows columns ↔ r = 1 ∧ rows ≤ 0 ∨ c = 1 ∧ columns ≤ 0 := by
          rw [Clash,shape,aligned]
          exact ⟨fun clash => clash.2.2,fun clash => ⟨shaped,shape ▸ more,clash⟩⟩
        rw [shape,reshapeTwo rowsFit columnsFit,clashes]
        by_cases clash : r = 1 ∧ rows ≤ 0 ∨ c = 1 ∧ columns ≤ 0
        · rw [if_pos clash]
          exact .inr ⟨clash,_,rfl⟩
        · rw [if_neg clash]
          dsimp only
          rw [bindOfOk]
          dsimp only
          refine .inl ⟨clash,?_⟩
          split
          · exact ⟨_,rfl⟩
          · rename_i column
            split
            · exact ⟨_,rfl⟩
            · rename_i row
              have same {lo hi : Int64} (fits : lo = 1 ∨ lo = hi) (wide : ¬ (lo = 1 ∧ 1 < hi))
                  (apart : ¬ (lo = 1 ∧ hi ≤ 0)) : lo = hi := by
                rcases fits with one | same
                · rcases extentCases hi with ⟨empty,-⟩ | same | ⟨large,-⟩
                  · exact absurd ⟨one,empty⟩ apart
                  · exact one.trans same.symm
                  · exact absurd ⟨one,large⟩ wide
                · exact same
              rw [if_pos ⟨same rowsFit row fun both => clash (.inl both),same columnsFit column fun both => clash (.inr both)⟩]
              exact ⟨_,rfl⟩

end Broadcast

namespace ToKernel

open Blocking Drafting

variable {g : Graph} {id : OpId} {s : Site} {d : Draft} {out : ValueType} {name : String}

structure Checked (g : Graph) (id : OpId) (out : ValueType) (name : String) : Prop where
  verified : verify g (g.op id) = .ok ()
  output : ∃ v, (g.op id).operands.getLast? = some (some v) ∧ g.typeOf v = out
  shaped : out.isShaped = true
  buffer : out.isBuffer = true
  static : out.isStatic = true
  element : dataTypeOf out = .ok name

theorem dataTypeAnswers (t : ValueType) : dataTypeOf t ≠ .abort := by
  unfold dataTypeOf
  split <;> exact nofun

theorem checkEnds (present : ∀ v ∈ (g.op s.op).operands, ∃ w, v = some w) :
    Ends (fun r e => .ofGraph g = e ∧ ∃ out name, r = (g.op s.op, out, name) ∧ Checked g s.op out name) (check s)
      (.ofGraph g) := by
  refine .next graphRun ?_
  refine .bind (Q := fun _ e => .ofGraph g = e ∧ verify g (g.op s.op) = .ok ())
    (.attempt (verifyAnswers present) fun _ ok => ⟨rfl,ok⟩) ?_
  rintro _ _ ⟨rfl,verified⟩
  obtain ⟨want,-,length,-⟩ := verifyCount verified
  have some : (g.op s.op).operands ≠ [] := fun none => by rw [none] at length; cases length
  have last := getLast?_eq_some_getLast some
  obtain ⟨v,same⟩ := present _ (getLast_mem some)
  rw [same] at last
  refine .next (askOk.mpr ⟨by rw [output]; exact ofOptionOk.mpr last,rfl⟩) (.next (typeOfRun v) ?_)
  refine .bind (Q := fun name e => .ofGraph g = e ∧ Checked g s.op (g.typeOf v) name) ?_ ?_
  · refine .check fun shaped => .check fun buffer => .check fun static => .attempt (dataTypeAnswers _) fun name element => ?_
    rw [not_not] at shaped buffer static
    exact ⟨rfl,verified,⟨v,last,rfl⟩,shaped,buffer,static,element⟩
  · rintro name _ ⟨rfl,checked⟩
    exact .done rfl ⟨rfl,_,name,rfl,checked⟩

theorem checkRun (checked : Checked g s.op out name) : check s (.ofGraph g) = .ok (g.op s.op, out, name) (.ofGraph g) := by
  obtain ⟨v,last,rfl⟩ := checked.output
  have output : checkOutput s (g.typeOf v) (.ofGraph g) = .ok name (.ofGraph g) := by
    unfold checkOutput
    rw [if_neg (by simp [checked.shaped]),if_neg (by simp [checked.buffer]),if_neg (by simp [checked.static])]
    exact Site.attemptOk.mpr ⟨checked.element,rfl⟩
  refine Step.bindOk.mpr ⟨_,_,graphRun,Step.bindOk.mpr ⟨_,_,Site.attemptOk.mpr ⟨checked.verified,rfl⟩,?_⟩⟩
  refine Step.bindOk.mpr ⟨_,_,askOk.mpr ⟨ofOptionOk.mpr last,rfl⟩,?_⟩
  exact Step.bindOk.mpr ⟨_,_,typeOfRun v,Step.bindOk.mpr ⟨_,_,output,rfl⟩⟩

theorem check2DRun {rows columns} (dims : out.dims = [rows, columns]) : check2D s out d = .ok (rows, columns) d := by
  rw [check2D,dims]
  rfl

theorem check2DEnds : Ends (fun mn e => d = e ∧ out.dims = [mn.1, mn.2]) (check2D s out) d := by
  unfold check2D
  split
  · rename_i dims
    exact .done rfl ⟨rfl,dims⟩
  · exact .declined

def Final (o : Operation) : Prop := ∀ r ∈ rules, r.root ≠ "" ∧ r.root ≠ o.kind

def invokeOp (kind function : String) (handle : Operand) (buffers : List Operand) (batch : Option Int64) : Operation :=
  ⟨kind,handle :: buffers,[],match batch with
    | some n => (Attributes.ofList [(kindAttr, .text function)]).store batchAttr (.int n)
    | none => Attributes.ofList [(kindAttr, .text function)],none,none⟩

theorem makeInvokeRun (kind function : String) (handle : Operand) (buffers : List Operand) (batch : Option Int64) :
    makeInvoke kind function handle buffers batch d = .ok d.graph.ops.size
      { d with graph := d.graph.push (invokeOp kind function handle buffers batch) } := rfl

theorem invokeEnds (within : s.op < g.ops.size) (bare : (g.op s.op).results = [])
    {dispatchKind kind function flags inputs handle buffers batch}
    (final : ∀ k ∈ [dispatchKind, kind], ∀ r ∈ rules, r.root ≠ "" ∧ r.root ≠ k) :
    Ends (fun _ e => Supplants Final g s.op e) (invoke s kind function handle buffers batch)
      ((ofGraph g).push (dispatchOp dispatchKind function inputs flags name)) := by
  have asks : Final (dispatchOp dispatchKind function inputs flags name) := final _ (.head _)
  have plain : (dispatchOp dispatchKind function inputs flags name).region = none := rfl
  rw [← stagedNil,stagedPush,nil_append]
  generalize dispatchOp dispatchKind function inputs flags name = o at asks plain
  have size : (staged g [o]).graph.ops.size = g.ops.size + 1 := g.pushAllSize [o]
  refine .next (makeInvokeRun ..) ?_
  rw [size]
  refine Supplants.replaceWithNew [o] within bare rfl fun x mem => ?_
  simp only [mem_append,mem_singleton] at mem
  rcases mem with rfl | rfl
  · exact ⟨plain,asks⟩
  · exact ⟨rfl,final kind (by simp)⟩

theorem extentRun {axis} (inside : axis < out.dims.length) : extent out axis d = .ok out.dims[axis] d :=
  requireOk.mpr ⟨getElem?_eq_getElem inside,rfl⟩

def Clashes (g : Graph) (id : OpId) : Prop :=
  ((g.op id).kind = identityKind ∨ (g.op id).kind = addKind) ∧
    ∃ out name rows columns, Checked g id out name ∧ out.dims = [rows, columns] ∧
      ∃ v, some v ∈ (g.op id).operands.dropLast ∧ Broadcast.Clash (g.typeOf v) rows columns

theorem classifies {rows columns v} (checked : Checked g id out name)
    (kind : (g.op id).kind = identityKind ∨ (g.op id).kind = addKind)
    (dims : out.dims = [rows, columns]) (apart : ¬ Clashes g id) (mem : some v ∈ (g.op id).operands.dropLast) :
    ∃ r, Broadcast.classify (g.typeOf v) out.dims = .ok r := by
  obtain ⟨w,last,rfl⟩ := checked.output
  have fits := elementwiseBroadcasts checked.verified kind last v mem
  rcases Broadcast.classifyCases fits dims with ⟨-,ok⟩ | ⟨clash,-⟩
  · exact ok
  · exact absurd ⟨kind,_,name,rows,columns,checked,dims,v,mem,clash⟩ apart

theorem classifyInputsEnds {dims} {vs : List Operand} {i flags}
    (each : ∀ v ∈ vs, ∃ w, v = some w ∧ ∃ r, Broadcast.classify (d.graph.typeOf w) dims = .ok r) :
    Ends (fun r e => d = e ∧ r.1.length = vs.length) (classifyInputs s dims i flags vs) d := by
  induction vs generalizing i flags with
  | nil => exact .done rfl ⟨rfl,rfl⟩
  | cons v vs ih =>
    obtain ⟨⟨w,rfl,⟨ld,kind⟩,classified⟩,rest⟩ := forall_mem_cons.mp each
    have last {flags : String} : Ends (fun r e => d = e ∧ r.1.length = (some w :: vs).length) (do
        let more ← classifyInputs s dims (i + 1) flags vs
        pure (ld :: more.1, more.2)) d := by
      refine .bind (ih rest) ?_
      rintro more _ ⟨rfl,length⟩
      exact .done rfl ⟨rfl,congrArg Nat.succ length⟩
    refine .next (typeOfRun w) (.next (askOk.mpr ⟨classified,rfl⟩) ?_)
    dsimp only
    split
    · exact last
    · exact .check fun _ => last

section Rules

variable (within : s.op < g.ops.size) (present : ∀ v ∈ (g.op s.op).operands, ∃ w, v = some w)
  (bare : ∀ out name, Checked g s.op out name → (g.op s.op).results = [])

include within present bare

theorem contractionEnds (kind : (g.op s.op).kind = matmulKind ∨ (g.op s.op).kind = brgemmKind ∨
      (g.op s.op).kind = vnniMatmulKind)
    {function flags axis batched} (depth : axis < if (g.op s.op).kind = brgemmKind then 3 else 2) :
    Lowers Final g s.op (contraction s function flags axis batched) := by
  refine .bind (checkEnds present) ?_
  rintro _ _ ⟨rfl,out,name,rfl,checked⟩
  obtain ⟨a,b,c,operands,left,right⟩ := contractionRanks checked.verified kind
  obtain ⟨v,last,rfl⟩ := checked.output
  rw [operands] at last
  obtain rfl : c = v := by simpa using last
  rw [ValueType.rank] at left right
  refine .next (nthOk.mpr ⟨by rw [operands]; rfl,rfl⟩) (.next (typeOfRun a) ?_)
  have rest {batch : Option Int64} : Lowers Final g s.op (do
      let m ← extent (g.typeOf c) 0
      let n ← extent (g.typeOf c) 1
      let k ← extent (g.typeOf a) axis
      let handle ← dispatch ternaryDispatchKind function (some [m, n, k, m, k, m]) flags name
      invoke s ternaryKind function handle (g.op s.op).operands batch) := by
    refine .next (extentRun (right ▸ by decide)) (.next (extentRun (right ▸ by decide)) (.next (extentRun (left ▸ depth)) ?_))
    exact .next (dispatchRun ..) (invokeEnds within (bare _ _ checked) (by decide))
  cases batched with
  | false => exact rest
  | true =>
    have some : 0 < (g.typeOf a).dims.length := (Nat.zero_le axis).trans_lt (left ▸ depth)
    exact .next (extentRun some) rest

theorem reluEnds (kind : (g.op s.op).kind = reluKind) : Lowers Final g s.op (relu.draft s) := by
  refine .bind (checkEnds present) ?_
  rintro _ _ ⟨rfl,out,name,rfl,checked⟩
  refine .bind check2DEnds ?_
  rintro ⟨m,n⟩ _ ⟨rfl,dims⟩
  obtain ⟨x,y,operands⟩ := unaryOperands checked.verified (.inr kind)
  refine .next (dispatchRun ..) (.next (nthOk.mpr ⟨by rw [operands]; rfl,rfl⟩) ?_)
  exact .next (nthOk.mpr ⟨by rw [operands]; rfl,rfl⟩) (invokeEnds within (bare _ _ checked) (by decide))

theorem identityEnds (kind : (g.op s.op).kind = identityKind) (apart : ¬ Clashes g s.op) :
    Lowers Final g s.op (identity.draft s) := by
  refine .bind (checkEnds present) ?_
  rintro _ _ ⟨rfl,out,name,rfl,checked⟩
  refine .bind check2DEnds ?_
  rintro ⟨m,n⟩ _ ⟨rfl,dims⟩
  obtain ⟨x,y,operands⟩ := unaryOperands checked.verified (.inl kind)
  obtain ⟨v,rfl⟩ := present x (by rw [operands]; exact .head _)
  obtain ⟨r,classified⟩ := classifies checked (.inl kind) dims apart (by rw [operands]; exact mem_singleton_self _)
  refine .next (nthOk.mpr ⟨by rw [operands]; rfl,rfl⟩) (.next (nthOk.mpr ⟨by rw [operands]; rfl,rfl⟩) ?_)
  refine .next (typeOfRun v) (.next (askOk.mpr ⟨classified,rfl⟩) ?_)
  exact .next (dispatchRun ..) (invokeEnds within (bare _ _ checked) (by decide))

theorem addEnds (kind : (g.op s.op).kind = addKind) (apart : ¬ Clashes g s.op) :
    Lowers Final g s.op (add.draft s) := by
  refine .bind (checkEnds present) ?_
  rintro _ _ ⟨rfl,out,name,rfl,checked⟩
  refine .bind check2DEnds ?_
  rintro ⟨m,n⟩ _ ⟨rfl,dims⟩
  obtain ⟨x,y,z,operands⟩ := addOperands checked.verified kind
  refine .next (askOk.mpr ⟨by rw [Primitive.inputs,operands]; rfl,rfl⟩) ?_
  refine .bind (classifyInputsEnds fun v mem => ?_) ?_
  · obtain ⟨w,rfl⟩ := present v (by rw [operands]; exact mem_of_mem_dropLast mem)
    have input : some w ∈ (g.op s.op).operands.dropLast := by rw [operands]; exact mem
    exact ⟨w,rfl,classifies checked (.inr kind) dims apart input⟩
  · rintro ⟨lds,flags⟩ _ ⟨rfl,length⟩
    obtain ⟨ld0,ld1,rfl⟩ := length_eq_two.mp length
    exact .next (dispatchRun ..) (invokeEnds within (bare _ _ checked) (by decide))

theorem rulesEnd {r : Rule} (mem : r ∈ rules) (tried : Greedy.Tried r g s.op) (apart : ¬ Clashes g s.op) :
    Lowers Final g s.op (r.draft s) := by
  simp only [rules,mem_cons,not_mem_nil,or_false] at mem
  have kind : r.root ≠ "" → (g.op s.op).kind = r.root := fun named => (tried.resolve_left named).symm
  rcases mem with rfl | rfl | rfl | rfl | rfl | rfl <;> replace kind := kind (by decide)
  · exact contractionEnds within present bare (.inl kind) (by rw [kind]; decide)
  · exact contractionEnds within present bare (.inr (.inl kind)) (by rw [kind]; decide)
  · exact contractionEnds within present bare (.inr (.inr kind)) (by rw [kind]; decide)
  · exact identityEnds within present bare kind apart
  · exact reluEnds within present bare kind
  · exact addEnds within present bare kind apart

end Rules

theorem classifyStops {rows columns : Int64} {v : Value} {β : Type} {k : Int64 × Broadcast → Drafting β}
    (checked : Checked g s.op out name)
    (kind : (g.op s.op).kind = identityKind ∨ (g.op s.op).kind = addKind)
    (dims : out.dims = [rows, columns]) (mem : some v ∈ (g.op s.op).operands.dropLast)
    (clash : Broadcast.Clash (g.typeOf v) rows columns) :
    Stops ((ask fun _ => Broadcast.classify (g.typeOf v) out.dims) >>= k) (.ofGraph g) := by
  obtain ⟨w,last,rfl⟩ := checked.output
  have fits := elementwiseBroadcasts checked.verified kind last v mem
  rcases Broadcast.classifyCases fits dims with ⟨apart,-⟩ | ⟨-,message,failed⟩
  · exact absurd clash apart
  · rw [failed]
    refine .first ⟨_,_,rfl,?_⟩
    simp [Fault.Declines,Diagnostic.isDecline]

theorem identityStops (kind : (g.op s.op).kind = identityKind) (clashes : Clashes g s.op) :
    Stops (identity.draft s) (.ofGraph g) := by
  obtain ⟨-,out,name,rows,columns,checked,dims,v,mem,clash⟩ := clashes
  obtain ⟨x,y,operands⟩ := unaryOperands checked.verified (.inl kind)
  have input : some v = x := by
    rw [operands] at mem
    exact mem_singleton.mp mem
  subst input
  refine .next (checkRun checked) (.next (check2DRun dims) ?_)
  refine .next (nthOk.mpr ⟨by rw [operands]; rfl,rfl⟩) (.next (nthOk.mpr ⟨by rw [operands]; rfl,rfl⟩) ?_)
  exact .next (typeOfRun v) (classifyStops checked (.inl kind) dims mem clash)

/- A clash is found before it is asked whether another input is broadcast. -/
theorem addStops (present : ∀ v ∈ (g.op s.op).operands, ∃ w, v = some w) (kind : (g.op s.op).kind = addKind)
    (clashes : Clashes g s.op) : Stops (add.draft s) (.ofGraph g) := by
  obtain ⟨-,out,name,rows,columns,checked,dims,v,mem,clash⟩ := clashes
  obtain ⟨x,y,z,operands⟩ := addOperands checked.verified kind
  have inputs : (g.op s.op).operands.dropLast = [x, y] := by rw [operands]; rfl
  have meets {w : Value} (mem : some w ∈ (g.op s.op).operands.dropLast) (clash : Broadcast.Clash (g.typeOf w) rows columns)
      {i : Nat} {flags : String} {vs : List Operand} : Stops (classifyInputs s out.dims i flags (some w :: vs)) (.ofGraph g) :=
    .next (typeOfRun w) (classifyStops checked (.inr kind) dims mem clash)
  refine .next (checkRun checked) (.next (check2DRun dims) ?_)
  refine .next (askOk.mpr ⟨by rw [Primitive.inputs,operands]; rfl,rfl⟩) (.first ?_)
  have pair := mem
  rw [inputs] at pair
  rcases mem_cons.mp pair with rfl | pair
  · exact meets mem clash
  · obtain rfl := mem_singleton.mp pair
    obtain ⟨w,rfl⟩ := present x (by rw [operands]; exact .head _)
    have first : some w ∈ (g.op s.op).operands.dropLast := by rw [inputs]; exact .head _
    by_cases early : Broadcast.Clash (g.typeOf w) rows columns
    · exact meets first early
    · obtain ⟨u,last,rfl⟩ := checked.output
      have fits := elementwiseBroadcasts checked.verified (.inr kind) last w first
      rcases Broadcast.classifyCases fits dims with ⟨-,⟨ld,found⟩,classified⟩ | ⟨clash,-⟩
      · refine .next (typeOfRun w) (.next (askOk.mpr ⟨classified,rfl⟩) ?_)
        dsimp only
        split
        · exact .next rfl (.first (meets mem clash))
        · exact .next rfl (.first (meets mem clash))
      · exact absurd clash early

theorem Checked.transfer {h : Graph} (kind : (h.op id).kind = (g.op id).kind)
    (operands : (h.op id).operands = (g.op id).operands)
    (types : ∀ w, some w ∈ (g.op id).operands → h.typeOf w = g.typeOf w) (checked : Checked g id out name) :
    Checked h id out name where
  verified := (verifyCongr kind operands types).trans checked.verified
  output := by
    obtain ⟨v,last,same⟩ := checked.output
    rw [operands]
    exact ⟨v,last,(types v (mem_of_getLast? last)).trans same⟩
  shaped := checked.shaped
  buffer := checked.buffer
  static := checked.static
  element := checked.element

theorem Clashes.transfer {h : Graph} (kind : (h.op id).kind = (g.op id).kind)
    (operands : (h.op id).operands = (g.op id).operands)
    (types : ∀ w, some w ∈ (g.op id).operands → h.typeOf w = g.typeOf w) (clashes : Clashes g id) : Clashes h id := by
  obtain ⟨broadcasts,out,name,rows,columns,checked,dims,v,mem,clash⟩ := clashes
  refine ⟨by rwa [kind],out,name,rows,columns,checked.transfer kind operands types,dims,v,by rwa [operands],?_⟩
  rwa [types v (mem_of_mem_dropLast mem)]

/- A run over a function: what was lowered before leaves the other primitives as they were. -/
section Runs

open Greedy

def Bare (g : Graph) (id : OpId) : Prop := isPrimitive (g.op id) = true →
  ∀ v, (g.op id).operands.getLast? = some (some v) → (g.typeOf v).isTensor = false → (g.op id).results = []

variable {h : Graph} (ok : g.verify = .ok ()) (lowered : Lowered Final g h)

include ok lowered

theorem sameOperands {j} (mem : j ∈ g.walkAll) : ∃ block, h.op j = { g.op j with block } ∧
    ∀ w, some w ∈ (g.op j).operands → h.typeOf w = g.typeOf w := by
  obtain ⟨block,same⟩ := lowered.old j (walkInside ok mem)
  refine ⟨block,same,fun w used => ?_⟩
  obtain ⟨_,here,defined⟩ := operandsDefined ok mem _ used
  cases here
  exact lowered.typeOf defined.below

theorem stillClashes {j} (mem : j ∈ g.walkAll) : Clashes h j ↔ Clashes g j := by
  obtain ⟨block,same,types⟩ := sameOperands ok lowered mem
  refine ⟨fun clashes => ?_,fun clashes => ?_⟩
  · refine clashes.transfer (by rw [same]) (by rw [same]) fun w used => ?_
    rw [same] at used
    exact (types w used).symm
  · exact clashes.transfer (by rw [same]) (by rw [same]) types

theorem ends {j} (mem : j ∈ g.walkAll) (bare : Bare g j) (alive : h.isAlive j = true) (apart : ¬ Clashes g j) {r : Rule}
    (listed : r ∈ rules) (tried : Tried r h j) : Lowers Final h j (r.draft ⟨r.name,j⟩) := by
  obtain ⟨block,same,types⟩ := sameOperands ok lowered mem
  obtain ⟨b,home⟩ := Option.isSome_iff_exists.mp alive
  refine rulesEnd (s := ⟨r.name,j⟩) (Graph.blockInside home) (fun v used => ?_) (fun out name checked => ?_) listed tried
    (mt (stillClashes ok lowered mem).mp apart)
  · rw [same] at used
    obtain ⟨w,here,-⟩ := Graph.operandsDefined ok mem v used
    exact ⟨w,here⟩
  · obtain ⟨v,last,type⟩ := checked.output
    rw [same] at last ⊢
    refine bare ?_ v last ?_
    · obtain ⟨want,count,-⟩ := verifyCount checked.verified
      rw [same] at count
      rcases countCases count with ⟨kind | kind,-⟩ | ⟨kind | kind | kind | kind,-⟩ <;>
      · rw [isPrimitive,Operation.dialect,kind]
        decide
    · have buffer := checked.buffer
      rw [← type,types v (mem_of_getLast? last)] at buffer
      rw [ValueType.isBuffer,decide_eq_true_eq] at buffer
      rw [ValueType.isTensor,buffer]
      rfl

theorem tryStops {σ j} (mem : j ∈ g.walkAll) (clashes : Clashes g j) (p : Progress σ) (here : p.graph = h) :
    (tryAt j (rules.map Pattern.ofRule) p).2.fault.isSome = true := by
  subst here
  have clashes := (stillClashes ok lowered mem).mpr clashes
  have present : ∀ v ∈ (p.graph.op j).operands, ∃ w, v = some w := fun v used => by
    obtain ⟨block,same,-⟩ := sameOperands ok lowered mem
    rw [same] at used
    obtain ⟨w,here,-⟩ := operandsDefined ok mem v used
    exact ⟨w,here⟩
  have stops (r : Rule) (listed : r ∈ rules) (tried : Tried r p.graph j) : Stops (r.draft ⟨r.name,j⟩) (.ofGraph p.graph) := by
    simp only [rules,mem_cons,not_mem_nil,or_false] at listed
    have broadcasts := clashes.1
    have kind : r.root ≠ "" → (p.graph.op j).kind = r.root := fun named => (tried.resolve_left named).symm
    rcases listed with rfl | rfl | rfl | rfl | rfl | rfl <;> replace kind := kind (by decide)
    · exact absurd broadcasts (by rw [kind]; decide)
    · exact absurd broadcasts (by rw [kind]; decide)
    · exact absurd broadcasts (by rw [kind]; decide)
    · exact identityStops kind clashes
    · exact absurd broadcasts (by rw [kind]; decide)
    · exact addStops present kind clashes
  refine tryAtStops ?_ fun r listed tried => .inl (stops r listed tried)
  rcases clashes.1 with kind | kind
  · exact ⟨identity,by simp [rules],.inr kind.symm,stops _ (by simp [rules]) (.inr kind.symm)⟩
  · exact ⟨add,by simp [rules],.inr kind.symm,stops _ (by simp [rules]) (.inr kind.symm)⟩

theorem clashStays {σ j} (mem : j ∈ g.walkAll) (bare : Bare g j) (alive : h.isAlive j = true) (clashes : Clashes g id)
    (still : h.isAlive id = true) (p : Progress σ) (here : p.graph = h)
    (whole : (tryAt j (rules.map Pattern.ofRule) p).2.fault = none) :
    Lowered Final g (tryAt j (rules.map Pattern.ofRule) p).2.graph ∧
      (tryAt j (rules.map Pattern.ofRule) p).2.graph.isAlive id = true := by
  subst here
  cases (tryAtAttempted rules j p).attempt with
  | nothing graph =>
    rw [graph]
    exact ⟨lowered,still⟩
  | broken mem drafted graph broken changes fault =>
    rw [whole] at fault
    cases fault
  | committed listed drafted graph _ changes fault applies =>
    have apart : ¬ Clashes g j := fun clashes => by
      have stopped := tryStops ok lowered mem clashes p rfl
      rw [whole] at stopped
      cases stopped
    have supplants := (ends ok lowered mem bare alive apart listed applies).drafted drafted
    obtain ⟨b,block⟩ := Option.isSome_iff_exists.mp alive
    obtain ⟨c,home⟩ := Option.isSome_iff_exists.mp still
    rw [graph]
    refine ⟨(lowered.commit supplants block).2,?_⟩
    rw [isAlive,supplants.other block (blockInside home) fun same => apart (same ▸ clashes)]
    exact still

end Runs

open Greedy in
/- What clashes stays where it is until the first sweep comes to it. -/
theorem clashStops {σ} (ok : g.verify = .ok ()) (bare : ∀ id ∈ g.walkAll, Bare g id) (mem : id ∈ g.walkAll)
    (clashes : Clashes g id) {o : Options} (some : 0 < o.maxIterations) (s : σ) :
    (apply (rules.map Pattern.ofRule) o g s).fault.isSome = true := by
  refine applyStops some fun p here => ?_
  refine visitStops (J := fun h => Lowered Final g h ∧ h.isAlive id = true) mem (fun j walked p holds alive whole => ?_)
    (fun p holds => ⟨holds.2,tryStops ok holds.1 mem clashes p rfl⟩) false ?_
  · exact clashStays ok holds.1 walked (bare j walked) alive clashes holds.2 p rfl whole
  · rw [here]
    obtain ⟨⟨b,block,-⟩,-⟩ := walkListed ok mem
    exact ⟨.refl Final g,Option.isSome_iff_exists.mpr ⟨b,block⟩⟩

open Greedy in
/-- Dispatch stops at the first sweep if a primitive clashes, and never otherwise. -/
theorem lowersOrDeclines {σ : Type} (ok : g.verify = .ok ()) (bare : ∀ id ∈ g.walkAll, Bare g id) (o : Options) (s : σ) :
    (apply (rules.map Pattern.ofRule) o g s).fault = none ↔ o.maxIterations ≤ 0 ∨ ∀ id ∈ g.walkAll, ¬ Clashes g id := by
  constructor
  · intro none
    by_cases some : o.maxIterations ≤ 0
    · exact .inl some
    · refine .inr fun id mem clashes => ?_
      have stopped := clashStops ok bare mem clashes (Int.not_le.mp some) s
      rw [none] at stopped
      cases stopped
  · rintro (few | apart)
    · rw [apply,Int.toNat_of_nonpos few]
      rfl
    · refine Lowered.goes (N := Final) (fun o final => final) (fun h lowered j mem alive r listed tried => ?_) o s
      exact ends ok lowered mem (bare j mem) alive (apart j mem) listed tried

def rowsCopied : Graph where
  name := "main"
  ops := #[⟨identityKind,[some (.argument 0 0), some (.argument 0 1)],[],OrderedMap.empty,none,some 0⟩,
    ⟨identityKind,[some (.argument 0 2), some (.argument 0 1)],[],OrderedMap.empty,none,some 0⟩]
  blocks := #[⟨[.ofType (.buffer .f32 [3]), .ofType (.buffer .f32 [2, 3]), .ofType (.buffer .f32 [4, 3])],[0, 1],none⟩]

theorem lowersOrDeclinesRowsCopied : rowsCopied.verify = .ok () ∧ (∀ id ∈ rowsCopied.walkAll, Bare rowsCopied id) ∧
    ((Greedy.apply (rules.map Greedy.Pattern.ofRule) ⟨10, true⟩ rowsCopied ()).fault = none ↔
      (10 : Int) ≤ 0 ∨ ∀ id ∈ rowsCopied.walkAll, ¬ Clashes rowsCopied id) := by
  have ok : rowsCopied.verify = .ok () := by decide +kernel
  have bare : ∀ id ∈ rowsCopied.walkAll, Bare rowsCopied id := by
    have walk : rowsCopied.walkAll = [0, 1] := by decide +kernel
    simp only [walk,List.mem_cons,List.not_mem_nil,or_false,forall_eq_or_imp,forall_eq]
    exact ⟨fun _ _ _ _ => rfl,fun _ _ _ _ => rfl⟩
  exact ⟨ok,bare,lowersOrDeclines ok bare ⟨10,true⟩ ()⟩

def emptyRows : Graph where
  name := "main"
  ops := #[⟨identityKind,[some (.argument 0 0), some (.argument 0 1)],[],OrderedMap.empty,none,some 0⟩]
  blocks := #[⟨[.ofType (.buffer .f32 [1, 5]), .ofType (.buffer .f32 [0, 5])],[0],none⟩]

theorem dispatchStopsEmptyRows : emptyRows.verify = .ok () ∧
    (Greedy.apply (rules.map Greedy.Pattern.ofRule) ⟨10, true⟩ emptyRows ()).fault.isSome = true := by
  have ok : emptyRows.verify = .ok () := by decide +kernel
  have walk : emptyRows.walkAll = [0] := by decide +kernel
  have checked : Checked emptyRows 0 (.buffer .f32 [0, 5]) "F32" :=
    ⟨by decide +kernel,⟨.argument 0 1,by decide +kernel,by decide +kernel⟩,rfl,rfl,rfl,rfl⟩
  refine ⟨ok,clashStops ok (fun id mem => ?_) (walk ▸ List.mem_singleton_self 0) ?_ (by decide) ()⟩
  · rw [walk,List.mem_singleton] at mem
    subst mem
    exact fun _ _ _ _ => rfl
  · exact ⟨.inl rfl,_,_,0,5,checked,rfl,.argument 0 0,by decide +kernel,rfl,rfl,.inl ⟨rfl,by decide⟩⟩

end ToKernel

end TileLower

import TileLower.Proofs.ElementBodies

/-!
Operations on buffers that go from element to element, mapped to primitives. Main statement: `ToPrimitive.elementwiseMapped`.
-/
namespace TileLower

open Primitive List ZeroFill Box

/- Copies go by the flat order of elements, the primitive by indices. -/
section Copies

variable {xs ns : List Nat}

theorem fitsProduct (fits : Forall₂ (fun x n => x = 1 ∨ x = n) xs ns) (some : ∀ n ∈ ns, 0 < n) :
    xs.prod ≤ ns.prod ∧ (ns.prod ≤ xs.prod → xs = ns) := by
  induction fits with
  | nil => exact ⟨le_rfl,fun _ => rfl⟩
  | @cons x n xs ns here _ ih =>
    obtain ⟨first,some⟩ := forall_mem_cons.mp some
    obtain ⟨le,all⟩ := ih some
    have positive : 0 < ns.prod := prod_pos some
    have below : x ≤ n := by omega
    rw [prod_cons,prod_cons]
    refine ⟨Nat.mul_le_mul below le,fun whole => ?_⟩
    have same : x = n := by
      by_contra other
      have less : x + 1 ≤ n := by omega
      have := Nat.mul_le_mul less (Nat.le_refl ns.prod)
      have := Nat.mul_le_mul (Nat.le_refl x) le
      rw [Nat.add_mul] at *
      omega
    subst same
    rw [all (Nat.le_of_mul_le_mul_left whole first)]

theorem positionOnes {i : List Nat} (inside : Box.Inside i ns) {m} (ones : (ns.take m).prod = 1) :
    NdArray.position ns i = NdArray.position (ns.drop m) (i.drop m) := by
  induction m generalizing i ns with
  | zero => rfl
  | succ m ih =>
    cases inside with
    | nil => rfl
    | @cons j n is ns below inside =>
      rw [take_succ_cons,prod_cons] at ones
      obtain rfl := Nat.eq_one_of_mul_eq_one_right ones
      obtain rfl : j = 0 := by omega
      rw [NdArray.position,Nat.zero_mul,Nat.zero_add,ih inside (by simpa using ones)]
      rfl

theorem broadcastableFits {ds es : List Int64} (ok : broadcastable ds es = true) :
    ds.length ≤ es.length ∧ Forall₂ (fun d e => d = 1 ∨ d = e) ds (es.take ds.length) := by
  induction ds generalizing es with
  | nil => exact ⟨Nat.zero_le _,.nil⟩
  | cons d ds ih =>
    cases es with
    | nil => cases ok
    | cons e es =>
      rw [broadcastable,Bool.and_eq_true] at ok
      obtain ⟨length,rest⟩ := ih ok.2
      exact ⟨Nat.succ_le_succ length,.cons (by simpa using ok.1) rest⟩

theorem fitsWord {ds} (fits : Forall₂ (fun d e => d = 1 ∨ d = e) ds (words ns)) :
    ∃ xs, ds = words xs ∧ Forall₂ (fun x n => x = 1 ∨ x = n) xs ns := by
  induction ns generalizing ds with
  | nil =>
    cases fits
    exact ⟨[],rfl,.nil⟩
  | cons n ns ih =>
    cases fits with
    | cons here rest =>
      obtain ⟨xs,rfl,fits⟩ := ih rest
      rcases here with rfl | rfl
      · exact ⟨1 :: xs,rfl,.cons (.inl rfl) fits⟩
      · exact ⟨n :: xs,rfl,.cons (.inr rfl) fits⟩

theorem fitsSmall {xs} (fits : Forall₂ (fun x n => x = 1 ∨ x = n) xs ns) (small : Small ns) : Small xs := by
  induction fits with
  | nil => exact small
  | cons here _ ih =>
    refine forall_mem_cons.mpr ⟨?_,ih small.tail⟩
    rcases here with rfl | rfl
    · decide
    · exact small.head

theorem broadcastWords {t out : ValueType} (dims : out.dims = words ns) (shaped : t.isShaped = true ∨ t.dims = [])
    (ok : verifyBroadcast t out = .ok ()) :
    ∃ m ≤ ns.length, ∃ xs, t.dims = words xs ∧ Forall₂ (fun x n => x = 1 ∨ x = n) xs (ns.drop m) := by
  rcases shaped with shaped | none
  · rw [verifyBroadcast,if_neg (by simp [shaped])] at ok
    split at ok
    · exact absurd ok Outcome.failOk
    · split at ok
      · rename_i fits
        obtain ⟨le,fits⟩ := broadcastableFits fits
        rw [dims,length_reverse,length_reverse,wordsLength] at le
        have fits := forall₂_reverse_iff.mpr fits
        rw [dims,reverse_reverse,length_reverse,reverse_take,reverse_reverse,length_reverse,
          wordsLength,show (words ns).drop _ = words (ns.drop _) from map_drop.symm] at fits
        obtain ⟨xs,same,fits⟩ := fitsWord fits
        exact ⟨_,Nat.sub_le _ _,xs,same,fits⟩
      · exact absurd ok Outcome.failOk
  · exact ⟨ns.length,le_rfl,[],none,by simp⟩

theorem alignedFull {α} {a : NdArray α} {out : ValueType} (counted : a.Counted) (dims : out.dims = words ns)
    (small : Small ns) (some : ∀ n ∈ ns, 0 < n) (fits : ns.prod < wordBound)
    (shaped : a.type.isShaped = true ∨ a.type.dims = []) (ok : verifyBroadcast a.type out = .ok ())
    (size : a.data.size = ns.prod) :
    ∃ m ≤ ns.length, a.Full (ns.drop m) ∧ (ns.take m).prod = 1 := by
  obtain ⟨m,le,xs,dimsX,aligned⟩ := broadcastWords dims shaped ok
  obtain ⟨below,all⟩ := fitsProduct aligned fun n mem => some n (mem_of_mem_drop mem)
  have split : (ns.take m).prod * (ns.drop m).prod = ns.prod := by rw [← prod_append,take_append_drop]
  have first : 0 < (ns.take m).prod := prod_pos fun n mem => some n (mem_of_mem_take mem)
  have last : 0 < (ns.drop m).prod := prod_pos fun n mem => some n (mem_of_mem_drop mem)
  have smaller : (ns.drop m).prod ≤ ns.prod := split ▸ Nat.le_mul_of_pos_left _ first
  have smallX : Small xs := fitsSmall aligned fun n mem => small n (mem_of_mem_drop mem)
  have full : a.Full xs := counted.full dimsX smallX (by omega)
  have whole : (ns.drop m).prod ≤ xs.prod := by rw [← full.size,size]; exact smaller
  refine ⟨m,le,all whole ▸ full,?_⟩
  have same : xs.prod = (ns.drop m).prod := Nat.le_antisymm below whole
  rw [← size,full.size,same] at split
  exact Nat.eq_of_mul_eq_mul_right last (by omega)

end Copies

namespace Eval

open TileLower.AffineMap (minorOf)
open Box (grid Inside)

variable {α : Type} [Scalar α] {s t : Machine α} {ns : List Nat} {rx rz : Ref}

omit [Scalar α] in
theorem evalCopyPlace {g : Graph} {id x z} (inputs : Structured.inputs (g.op id) = .ok [some x])
    (outputs : Structured.outputs (g.op id) = .ok [some z]) (place : (g.typeOf z).isTensor = false)
    (ok : evalCopy g id s = .ok () t) :
    ∃ rx rz, s.env x = some rx ∧ s.env z = some rz ∧ copyData rx rz s = .ok () t := by
  obtain ⟨⟨rx,rz⟩,u,ran,ok⟩ := Step.bindOk.mp ok
  obtain ⟨_,found,ran⟩ := Step.read liftOk ran
  cases inputs.symm.trans found
  obtain ⟨_,first,ran⟩ := Step.read liftOk ran
  cases first
  obtain ⟨q,boundX,ran⟩ := Step.pass valueSomeOk ran
  obtain ⟨_,found,ran⟩ := Step.read liftOk ran
  cases outputs.symm.trans found
  obtain ⟨_,first,ran⟩ := Step.read liftOk ran
  cases first
  obtain ⟨p,_,written,ran⟩ := Step.bindOk.mp ran
  simp only [output,place,Bool.false_eq_true,if_false] at written
  obtain ⟨p',boundZ,written⟩ := Step.pass valueSomeOk written
  cases written
  cases ran
  exact ⟨rx,rz,boundX,boundZ,ok⟩

omit [Scalar α] in
theorem storesRun (full : (s.arrayAt rz).Full ns) (x : List Nat → α) :
    along (grid ns) (fun i => store rz (words i) (x i)) s =
      .ok () (s.withArray rz ((s.arrayAt rz).putAll id x ns (grid ns))) := by
  have run := alongRun (grid ns) (fun i => store rz (words i) (x i)) (s.withArray rz) (fun a i => a.put ns i (x i))
    (fun a => a.Full ns) (fun i mem a fullA =>
      ⟨storeWith (fullValid full) fullA (memGrid.mp mem) (x i),fullA.put i (x i)⟩) full
  rwa [s.withArraySelf] at run

theorem copyFollows (full : (s.arrayAt rz).Full ns) {m} (le : m ≤ ns.length) (source : (s.arrayAt rx).Full (ns.drop m))
    (ones : (ns.take m).prod = 1) (few : ns.length < wordBound) (counted : (s.arrayAt rz).Counted)
    (ok : copyData rx rz s = .ok () t) : each (words ns) (elementPoint identityOf [rx] rz) s = .ok () t := by
  obtain ⟨sizes,rfl⟩ := copyDataOk.mp ok
  have valid := fullValid full
  let input : AffineMap × Ref := (minorOf ns.length (ns.length - m), rx)
  have laid : Laid s ns [input] rz := by
    refine ⟨(by decide : 2 < wordBound),few,full.small,?_,counted,valid⟩
    refine forall_mem_cons.mpr ⟨⟨_,Nat.sub_le _ _,rfl,?_⟩,forall_mem_singleton.mpr ⟨_,le_rfl,rfl,?_⟩⟩
    · rw [source.dims,Nat.sub_sub_self le]
    · rw [full.dims,Nat.sub_self]
      rfl
  let element (i : List Nat) : α := (s.arrayAt rx).data.getD (NdArray.position ns i) Scalar.zero
  have reads (i : List Nat) (inside : Inside i ns) : readAll (words i) (held s [input]) = .ok [element i] := by
    have rest : Inside (i.drop m) (ns.drop m) := forall₂_drop _ inside
    simp only [input,held,map_cons,map_nil,readAll,AffineMap.minorEval (Nat.sub_le _ _) few inside.length_eq,
      Nat.sub_sub_self le,Outcome.bindOfOk,source.get rest]
    rw [NdArray.cell,← positionOnes inside ones]
  have written := storesRun full element
  have copied : (s.arrayAt rz).putAll id element ns (grid ns) = { s.arrayAt rz with data := (s.arrayAt rx).data } := by
    have inside (i : List Nat) (mem : i ∈ grid ns) : Inside (id i) ns := memGrid.mp mem
    refine (full.putAll id element (grid ns)).1.ext ⟨full.dims,full.small,sizes.trans full.size,full.fits⟩
      (full.putAll id element (grid ns)).2 fun i at_ => ?_
    exact full.putAllAt inside ⟨i,memGrid.mpr at_,rfl⟩ fun j _ same => congrArg element same
  rw [copied] at written
  rw [eachAlong full.small]
  generalize s.withArray rz { s.arrayAt rz with data := (s.arrayAt rx).data } = t at written
  rw [← s.withArraySelf rz] at written ⊢
  refine alongInPlace (gridNodup ns) (fun i mem => memGrid.mp mem) (fun i mem a fullA type still t ran => ?_) full rfl
    (fun _ _ => rfl) written
  rw [storeWith valid fullA (memGrid.mp mem)] at ran
  cases ran
  exact ⟨element i,rfl,laid.element full fullA type (memGrid.mp mem) still
    (forall_mem_singleton.mpr (.head _)) (reads i (memGrid.mp mem)) rfl⟩

end Eval

namespace ToPrimitive

open Eval
open TileLower.AffineMap (minorOf)

theorem identityMinor {m : AffineMap} (ok : m.isIdentity = .ok true) : m.isMinorIdentity = .ok true := by
  rw [AffineMap.isIdentity] at ok
  split at ok
  · exact ok
  · cases ok

structure Spread (g : Graph) (id : OpId) (vs : List Value) (z : Value) : Prop where
  generic : (g.op id).kind = Structured.genericKind
  operands : (g.op id).operands = (vs ++ [z]).map some
  inputs : Structured.numInputs (g.op id) = Int64.ofNat vs.length
  few : vs.length + 1 < wordBound
  places : ∀ v ∈ vs ++ [z], (g.typeOf v).isTensor = false
  minor : ∀ m ∈ Structured.indexingMaps (g.op id), m.isMinorIdentity = .ok true
  identity : ∀ m, (Structured.indexingMaps (g.op id))[vs.length]? = some m → m.isIdentity = .ok true

section Spread

variable {g : Graph} {id : OpId} {name kind : String} {d e : Draft}

theorem presentValues {l : List Operand} {P : Value → Prop} (present : ∀ v ∈ l, ∃ w, v = some w ∧ P w) :
    ∃ ws : List Value, l = ws.map some ∧ ∀ w ∈ ws, P w := by
  induction l with
  | nil => exact ⟨[],rfl,nofun⟩
  | cons v l ih =>
    obtain ⟨⟨w,rfl,here⟩,later⟩ := forall_mem_cons.mp present
    obtain ⟨ws,rfl,rest⟩ := ih later
    exact ⟨w :: ws,rfl,forall_mem_cons.mpr ⟨here,rest⟩⟩

theorem spreadOf (generic : (g.op id).kind = Structured.genericKind) (room : (g.op id).operands.length < wordBound)
    {ins : List Operand} {out : Operand} (inputs : Structured.inputs (g.op id) = .ok ins)
    (outputs : Structured.outputs (g.op id) = .ok [out]) (buffers : Structured.hasBufferSemantics g (g.op id) = .ok true)
    (maps : ∀ j m, (Structured.indexingMaps (g.op id))[j]? = some m →
      if Int64.ofNat j < Structured.numInputs (g.op id) then m.isMinorIdentity = .ok true else m.isIdentity = .ok true) :
    ∃ vs z, ins = vs.map some ∧ out = some z ∧ Spread g id vs z := by
  obtain ⟨n,number,within,left,right⟩ := Structured.operandsSplit inputs outputs
  have whole : (g.op id).operands = ins ++ [out] := by rw [left,right,take_append_drop]
  have length : ins.length = n := by rw [left,length_take,Nat.min_eq_left within]
  have count : Structured.numInputs (g.op id) = Int64.ofNat ins.length := by
    obtain ⟨nonneg,-,count⟩ := Structured.countWithinOk number
    obtain ⟨k,small,same⟩ := Word.existsOfNonneg nonneg
    rw [same,Word.toNatOfNat small] at count
    rw [same,length,count]
  obtain ⟨ws,operands,places⟩ := presentValues (P := fun w => (g.typeOf w).isTensor = false)
    (by simpa using Structured.allTypesOk.mp buffers)
  obtain ⟨vs,zs,rfl,rfl,last⟩ := map_eq_append_iff.mp (operands.symm.trans whole)
  obtain ⟨z,rfl,rfl⟩ := map_eq_singleton_iff.mp last
  rw [length_map] at count
  have few : vs.length + 1 < wordBound := by simpa [operands] using room
  refine ⟨vs,z,rfl,rfl,generic,operands,count,few,places,fun m mem => ?_,fun m at_ => ?_⟩
  · obtain ⟨j,at_⟩ := getElem?_of_mem mem
    have found := maps j m at_
    split at found
    · exact found
    · exact identityMinor found
  · have found := maps _ m at_
    rwa [count,if_neg Int64.lt_irrefl] at found

end Spread

section Rules

variable {α : Type} [Scalar α] {g : Graph} {id : OpId} {b : BlockId} {name kind : String} {d : Draft} {vs ins : List Value}
  {z : Value} {extents : List Int64} {memory : Array (NdArray α)} {args : List Ref}

/-- What is asked of a function and its arguments where an operation on buffers becomes a primitive: results are declared as
they are computed, and arguments are different arrays with as many elements as their types say. -/
structure Ordinary (g : Graph) (memory : Array (NdArray α)) (args : List Ref) : Prop where
  declared : ∀ j ∈ (g.block Graph.body).ops, g.Declared j
  valid : ∀ r ∈ args, r < memory.size
  counted : CountedArguments memory args
  distinct : args.Nodup

theorem Spread.refines (spread : Spread g id vs z) (formed : g.WellFormed) (mem : id ∈ g.walkAll)
    (ready : Prepared g id (g.Seen id) d) (agrees : g.Agrees id extents) (ordinary : Ordinary g memory args) {f}
    (known : elementOf? kind = some f) (uses : ∀ v ∈ ins, v ∈ vs ++ [z])
    (computes : ∀ pre post, (g.block Graph.body).ops = pre ++ id :: post →
      ∀ s, Passed g memory args pre s → ∀ b ns ps rz, (g.op id).region = some b →
      vs.map s.env = (ps.map Prod.snd).map some → s.env z = some rz → Laid s ns ps rz →
      ∃ qs, (∀ q ∈ qs, q ∈ ps ++ [(minorOf ns.length ns.length, rz)]) ∧ ins.map s.env = (qs.map Prod.snd).map some ∧
      Computes g b s ns (ps ++ [(minorOf ns.length ns.length, rz)]) f qs)
    (drafted : replace ⟨name,id⟩ kind (ins.map some) (some z) (.ofGraph g) = .ok () d) :
    RefinesBy g d id memory args := by
  have contraction : (g.op id).kind ∈ [Structured.matmulKind, Structured.genericKind, Structured.batchReduceMatmulKind] := by
    simp [spread.generic]
  obtain ⟨isStructured,evaluated⟩ := evalOpContraction (α := α) contraction
  have last : z ∈ vs ++ [z] := by simp
  obtain ⟨verified,draft⟩ := replaceOk (spread.places z last) drafted
  have used (v : Value) (among : v ∈ vs ++ [z]) : some v ∈ (g.op id).operands := by
    rw [spread.operands]
    exact mem_map_of_mem among
  refine replaceRefines formed mem ready verified draft isStructured (fun v among => ?_) ordinary.declared ordinary.valid
    ordinary.counted ordinary.distinct fun pre post split g' here types checked s t passed distinct sane ok => ?_
  · rcases mem_append.mp among with input | output
    · obtain ⟨w,mem,rfl⟩ := mem_map.mp input
      exact used w (uses w mem)
    · exact mem_singleton.mp output ▸ used z last
  · rw [evaluated] at ok
    have fits (v : Value) (among : v ∈ vs ++ [z]) (r : Ref) (found : s.env v = some r) :
        (s.arrayAt r).type = g.typeOf v ∧ (s.arrayAt r).Counted ∧ r < s.memory.size := by
      obtain ⟨fits,valid⟩ := sane.fits found
      obtain ⟨type,counted⟩ := fits (Propagation.operandsHas formed
        (split ▸ mem_append_right _ (.head _)) (used v among))
      exact ⟨type,counted,valid⟩
    obtain ⟨b,ns,ps,rz,region,bound,boundZ,laid,points⟩ := structuredLaid spread.generic agrees spread.operands
      spread.inputs spread.few spread.places spread.minor spread.identity fits ok
    obtain ⟨qs,among,boundIns,same⟩ := computes pre post split s passed b ns ps rz region bound boundZ laid
    obtain ⟨_,_,op⟩ := here
    rw [elementwiseRun checked (by rw [op]; exact known) (by rw [op]; rfl) boundIns
      (outputPlace (by rw [types z (used z last)]; exact spread.places z last) boundZ),laid.dims]
    exact laid.follows among same points

theorem replaceCount {ins : List Operand} {out} (ok : replace ⟨name,id⟩ kind ins out (.ofGraph g) = .ok () d) :
    inputCount? kind = some ins.length := by
  obtain ⟨new,d1,made,ok⟩ := Step.bindOk.mp ok
  obtain ⟨rfl,results,rfl⟩ := Blocking.primitiveMake made
  obtain ⟨_,rfl,ok⟩ := Step.read Drafting.graphOk ok
  obtain ⟨_,_,ran,ok⟩ := Step.bindOk.mp ok
  obtain ⟨verified,-⟩ := Site.attemptOk.mp ran
  change verify (g.push _) ((g.push _).op g.ops.size) = _ at verified
  rw [g.pushNew] at verified
  obtain ⟨want,count,length,-⟩ := verifyCount verified
  obtain rfl : ins.length = want := by simpa using length
  exact count

theorem recognisedOk (built : g.Built id) (generic : (g.op id).kind = Structured.genericKind) {f : Graph → Outcome Bool}
    {reason : String} {want : Nat} (count : inputCount? kind = some want)
    (whole : f g = .ok true → (g.op id).operands.length = want + 1)
    (ok : (do
      if ¬ (← Blocking.ask f) then Site.decline ⟨name,id⟩ reason
      checkBuffers ⟨name,id⟩
      checkElementwiseMaps ⟨name,id⟩
      replaceAll ⟨name,id⟩ kind) (.ofGraph g) = .ok () d) :
    f g = .ok true ∧ ∃ vs z, vs.length = want ∧ Spread g id vs z ∧
      replace ⟨name,id⟩ kind (vs.map some) (some z) (.ofGraph g) = .ok () d := by
  obtain ⟨_,looked,ok⟩ := Step.read Blocking.askOk ok
  obtain ⟨holds,ok⟩ := Site.checkOk.mp ok
  have looked : f g = .ok true := not_not.mp holds ▸ looked
  obtain ⟨_,⟨buffers,-⟩,ok⟩ := Step.pass checkBuffersOk ok
  obtain ⟨_,maps,ok⟩ := Step.pass checkElementwiseMapsOk ok
  obtain ⟨us,outs,out,inputs,outputs,at_,ok⟩ := replaceAllOk ok
  have length : us.length = want := Option.some.inj ((replaceCount ok).symm.trans count)
  obtain rfl : outs = [out] := by
    obtain ⟨n,-,within,left,right⟩ := Structured.operandsSplit inputs outputs
    have whole := whole looked
    have one : outs.length = 1 := by
      have taken := congrArg List.length left
      have dropped := congrArg List.length right
      simp only [length_take,length_drop] at taken dropped
      omega
    obtain ⟨o,rfl⟩ := length_eq_one_iff.mp one
    exact congrArg (· :: []) (Option.some.inj at_)
  obtain ⟨vs,z,rfl,rfl,spread⟩ := spreadOf generic built.few inputs outputs buffers maps
  exact ⟨looked,vs,z,by simpa using length,spread,ok⟩

theorem reluOk (built : g.Built id) (generic : (g.op id).kind = Structured.genericKind)
    (ok : relu.draft ⟨name,id⟩ (.ofGraph g) = .ok () d) :
    ∃ vs z v, v ∈ vs ++ [z] ∧ Spread g id vs z ∧ Body.reluSource? g id = .ok (some (some v)) ∧
      replace ⟨name,id⟩ reluKind ([v].map some) (some z) (.ofGraph g) = .ok () d := by
  obtain ⟨source,found,ok⟩ := Step.read Blocking.askOk ok
  cases source with
  | none => exact absurd ok Site.declineOk
  | some source =>
    obtain ⟨⟨us,outs⟩,⟨inputs,outputs⟩,ok⟩ := Step.read Blocking.operandsAtOk ok
    match outs, ok with
    | [], ok | _ :: _ :: _, ok => exact absurd ok Site.declineOk
    | [out], ok =>
      obtain ⟨-,ok⟩ := Site.checkOk.mp ok
      obtain ⟨_,⟨buffers,-⟩,ok⟩ := Step.pass checkBuffersOk ok
      obtain ⟨_,_,ran,made⟩ := Step.bindOk.mp ok
      obtain ⟨maps,rfl⟩ := checkElementwiseMapsOk ran
      obtain ⟨vs,z,rfl,rfl,spread⟩ := spreadOf generic built.few inputs outputs buffers maps
      have used : source ∈ (g.op id).operands := reluSourceMem found
      rw [spread.operands] at used
      obtain ⟨v,among,rfl⟩ := mem_map.mp used
      exact ⟨vs,z,v,among,spread,found,made⟩

/-- What is asked of a copy by the flat order of elements, to be one by indices: only what is shaped has axes, and the elements
of the output are counted by its extents. -/
def FlatCopy (g : Graph) (id : OpId) : Prop :=
  ∀ x z, (g.op id).operands = [some x, some z] →
    (∀ v ∈ [x, z], (g.typeOf v).isShaped = true ∨ (g.typeOf v).dims = []) ∧ (∀ e ∈ (g.typeOf z).dims, 0 ≤ e) ∧
      (g.typeOf z).exactCount < 2 ^ 63

theorem copyOk (built : g.Built id) (root : (g.op id).kind = Structured.copyKind)
    (ok : copy.draft ⟨name,id⟩ (.ofGraph g) = .ok () d) :
    ∃ x z, (g.op id).operands = [some x, some z] ∧ Structured.inputs (g.op id) = .ok [some x] ∧
      Structured.outputs (g.op id) = .ok [some z] ∧ (g.typeOf x).isTensor = false ∧ (g.typeOf z).isTensor = false ∧
      replace ⟨name,id⟩ identityKind [some x] (some z) (.ofGraph g) = .ok () d := by
  obtain ⟨count,one⟩ := built.named 1 (by rw [root]; rfl)
  obtain ⟨u,w,operands⟩ := length_eq_two.mp count
  obtain ⟨_,⟨buffers,-⟩,ok⟩ := Step.pass checkBuffersOk ok
  have present := Structured.allTypesOk.mp buffers
  change ∀ v ∈ (g.op id).operands, _ at present
  rw [operands] at present
  simp only [forall_mem_cons,not_mem_nil,false_imp_iff,implies_true,and_true,Bool.not_eq_true'] at present
  obtain ⟨⟨x,rfl,placeX⟩,⟨z,rfl,placeZ⟩⟩ := present
  obtain ⟨_,_,out,inputs,outputs,first,ok⟩ := replaceAllOk ok
  obtain ⟨n,number,-,rfl,rfl⟩ := Structured.operandsSplit inputs outputs
  obtain rfl : n = 1 := by rw [(Structured.inputCountOk number).2,one]; rfl
  rw [operands] at inputs outputs first ok
  cases first
  exact ⟨x,z,operands,inputs,outputs,placeX,placeZ,ok⟩

section Refines

variable (formed : g.WellFormed) (mem : id ∈ g.walkAll) (built : g.Built id)
  (bodied : ∀ b ∈ (g.op id).region, ∃ pre yield, g.Straight b pre yield) (agrees : g.Agrees id extents)
  (ordinary : Ordinary g memory args) (generic : (g.op id).kind = Structured.genericKind)

include formed mem

theorem enclosed (region : (g.op id).region = some b) : ∃ scope, g.Encloses scope b := by
  obtain ⟨_,_,_,_,_,outer,split,-⟩ := Graph.atOfWalk .body mem
  exact ⟨_,formed,outer.region split region⟩

theorem readyAt {r : Rule} (listed : r ∈ rules) (drafted : r.draft ⟨name,id⟩ (.ofGraph g) = .ok () d) :
    Prepared g id (g.Seen id) d := rulesReady listed (formed.sightOf mem) drafted

include built bodied agrees ordinary generic

theorem identityRefines (drafted : ToPrimitive.identity.draft ⟨name,id⟩ (.ofGraph g) = .ok () d) :
    RefinesBy g d id memory args := by
  obtain ⟨looked,vs,z,one,spread,made⟩ := recognisedOk built generic rfl
    (fun copies => (Body.hasCopySemanticsOk copies).1.1) drafted
  refine spread.refines formed mem (readyAt formed mem (by simp [rules]) drafted) agrees ordinary rfl
    (fun v input => mem_append_left _ input) (fun pre post split s passed b ns ps rz region bound boundZ laid => ?_) made
  have length : ps.length = 1 := by simpa [one] using (congrArg List.length bound).symm
  obtain ⟨_,encloses⟩ := enclosed formed mem region
  obtain ⟨_,_,straight⟩ := bodied b region
  refine ⟨ps,fun q input => mem_append_left _ input,bound,computesInputs fun xs v y count body => ?_⟩
  obtain ⟨x,rfl⟩ := length_eq_one_iff.mp (count.trans length)
  cases copyYields straight encloses.sees region looked body
  rfl

theorem addRefines [Scalar.Commutes α] (drafted : add.draft ⟨name,id⟩ (.ofGraph g) = .ok () d) :
    RefinesBy g d id memory args := by
  obtain ⟨looked,vs,z,two,spread,made⟩ := recognisedOk built generic rfl (fun adds => by
    split at adds
    · cases adds
    · rename_i b region
      obtain ⟨_,_,_,_,_,_,-,three,-⟩ := isAddBodyOk adds
      rw [← built.body b region,three]) drafted
  refine spread.refines formed mem (readyAt formed mem (by simp [rules]) drafted) agrees ordinary rfl
    (fun v input => mem_append_left _ input) (fun pre post split s passed b ns ps rz region bound boundZ laid => ?_) made
  have length : ps.length = 2 := by simpa [two] using (congrArg List.length bound).symm
  obtain ⟨_,encloses⟩ := enclosed formed mem region
  obtain ⟨_,_,straight⟩ := bodied b region
  have adds : isAddBody g b = .ok true := by simpa only [region] using looked
  refine ⟨ps,fun q input => mem_append_left _ input,bound,computesInputs fun xs v y count body => ?_⟩
  obtain ⟨x,x',rfl⟩ := length_eq_two.mp (count.trans length)
  cases sumYields straight encloses.sees adds body
  rfl

theorem reluRefines [Scalar.OneZero α] (ok : g.verify = .ok ()) (plain : Plain g)
    (drafted : relu.draft ⟨name,id⟩ (.ofGraph g) = .ok () d) : RefinesBy g d id memory args := by
  obtain ⟨vs,z,v,among,spread,found,made⟩ := reluOk built generic drafted
  refine spread.refines formed mem (readyAt formed mem (by simp [rules]) drafted) agrees ordinary rfl
    (forall_mem_singleton.mpr among) (fun pre post split s passed b ns ps rz region bound boundZ laid => ?_) made
  obtain ⟨_,encloses⟩ := enclosed formed mem region
  obtain ⟨_,_,straight⟩ := bodied b region
  have boundAll : (vs ++ [z]).map s.env = ((ps ++ [(minorOf ns.length ns.length, rz)]).map Prod.snd).map some := by
    simp [bound,boundZ]
  obtain ⟨p,inside,boundV,computes⟩ := computesRelu encloses straight region (built.body b region) found spread.operands
    boundAll laid.trails fun u known => by
      obtain ⟨source,origin,followed⟩ := Outcome.bindOk.mp known
      exact tracedClear ok plain ordinary.distinct split passed origin followed
  exact ⟨[p],forall_mem_singleton.mpr inside,by simp [boundV],computes⟩

omit bodied agrees generic in
theorem copyRefines (root : (g.op id).kind = Structured.copyKind) (flat : FlatCopy g id)
    (drafted : copy.draft ⟨name,id⟩ (.ofGraph g) = .ok () d) : RefinesBy g d id memory args := by
  obtain ⟨x,z,operands,inputs,outputs,placeX,placeZ,made⟩ := copyOk built root drafted
  obtain ⟨shaped,nonneg,fits⟩ := flat x z operands
  simp only [forall_mem_cons,not_mem_nil,false_imp_iff,implies_true,and_true] at shaped
  obtain ⟨ns,small,dims⟩ := wordsOfNonneg nonneg
  have structured : Structured.isStructured (g.op id) = true := by rw [Structured.isStructured,root]; rfl
  obtain ⟨verified,draft⟩ := replaceOk placeZ made
  refine replaceRefines formed mem (readyAt formed mem (by simp [rules]) drafted) verified draft structured
    (by rw [operands]; exact fun _ used => used) ordinary.declared ordinary.valid ordinary.counted ordinary.distinct
    fun pre post split g' here types checked s t _ _ sane ok => ?_
  have evaluated : (evalOp g id : Exec α Unit) = evalCopy g id := by
    simp only [evalOp,root]
    rfl
  rw [evaluated] at ok
  obtain ⟨rx,rz,boundX,boundZ,copied⟩ := evalCopyPlace inputs outputs placeZ ok
  have fit {v : Value} {r : Ref} (bound : s.env v = some r) (used : some v ∈ (g.op id).operands) :
      (s.arrayAt r).type = g.typeOf v ∧ (s.arrayAt r).Counted :=
    (sane.fits bound).1 (Propagation.operandsHas formed (split ▸ mem_append_right _ (.head _)) used)
  obtain ⟨typeX,countedX⟩ := fit boundX (by simp [operands])
  obtain ⟨typeZ,countedZ⟩ := fit boundZ (by simp [operands])
  have product : ns.prod < wordBound := by
    rw [ValueType.exactCount,dims,exactProductWords small] at fits
    rw [wordBound]
    exact_mod_cast fits
  have full : (s.arrayAt rz).Full ns := countedZ.full (by rw [typeZ,dims]) small product
  obtain ⟨_,_,op⟩ := here
  have bound : [x].map s.env = [rx].map some := by simp [boundX]
  rw [elementwiseRun checked (f := identityOf) (by rw [op]; rfl) (by rw [op]; rfl) bound
    (outputPlace (by rw [types z (by simp [operands])]; exact placeZ) boundZ),full.dims]
  have known : verifyElementwise g (g'.op g.ops.size) = .ok () := verifyElementwiseOk
    ((verifyCongr rfl rfl fun v used => (types v (by rw [operands]; rwa [op] at used)).symm).trans checked)
    (by rw [op]; exact .head _)
  have last : (g'.op g.ops.size).operands.getLast? = some (some z) := by rw [op]; rfl
  by_cases present : ∀ n ∈ ns, 0 < n
  · have broadcasts := (elementwiseFits known last).2 x (by rw [op]; exact mem_singleton_self _)
    have few : ns.length < wordBound := by
      rw [← wordsLength,← dims]
      rcases shaped.2 with shaped | none
      · exact ((elementwiseFits known last).1 shaped).trans_lt (by decide)
      · simp [none,wordBound]
    have size : (s.arrayAt rx).data.size = ns.prod := (copyDataOk.mp copied).1.trans full.size
    obtain ⟨m,le,source,ones⟩ := alignedFull countedX dims small present product (by rw [typeX]; exact shaped.1)
      (by rw [typeX]; exact broadcasts) size
    exact copyFollows full le source ones few countedZ copied
  · have empty : 0 ∈ ns := by
      obtain ⟨n,mem,zero⟩ := not_forall₂.mp present
      exact Nat.eq_zero_of_not_pos zero ▸ mem
    rw [eachAlong small,gridEmpty empty]
    obtain ⟨sizes,rfl⟩ := copyDataOk.mp copied
    have none : (s.arrayAt rz).data.size = 0 := by rw [full.size,prod_eq_zero empty]
    have same : (s.arrayAt rx).data = (s.arrayAt rz).data := by
      rw [Array.eq_empty_of_size_eq_zero none,Array.eq_empty_of_size_eq_zero (sizes.trans none)]
    rw [same]
    exact congrArg (EStateM.Result.ok ()) (s.withArraySelf rz).symm

end Refines

/-- Mapping an operation that goes from element to element preserves the meaning of a function, also where an input is the
buffer that is written. Zeros are not told apart by their sign, and sums and maxima of two scalars commute. What is found to
be zero must be so, and a copy must go through its elements in the order of their indices. -/
theorem elementwiseMapped [Scalar.Commutes α] [Scalar.OneZero α] {r : Rule} (listed : r ∈ [copy, identity, relu, add])
    (ok : g.verify = .ok ()) (once : g.walkAll.Nodup) (mem : id ∈ g.walkAll) (root : (g.op id).kind = r.root)
    (built : g.Built id) (bodied : ∀ b ∈ (g.op id).region, ∃ pre yield, g.Straight b pre yield)
    (agrees : (g.op id).kind = Structured.genericKind → g.Agrees id extents) (zeros : r = relu → ZeroFill.Plain g)
    (flat : r = copy → FlatCopy g id) (ordinary : Ordinary g memory args)
    (drafted : r.draft ⟨r.name, id⟩ (.ofGraph g) = .ok () d) :
    (d.commit id).fault = none ∧ Refines g (d.commit id).graph memory args := by
  have formed := Graph.wellFormedOfVerify ok once
  simp only [List.mem_cons,List.not_mem_nil,or_false] at listed
  rcases listed with rfl | rfl | rfl | rfl
  · exact copyRefines formed mem built ordinary root (flat rfl) drafted
  · exact identityRefines formed mem built bodied (agrees root) ordinary root drafted
  · exact reluRefines formed mem built bodied (agrees root) ordinary root ok (zeros rfl) drafted
  · exact addRefines formed mem built bodied (agrees root) ordinary root drafted

end Rules

end ToPrimitive

/-- Integers with a single zero, which the constants of either sign give. -/
structure Whole where
  value : Int
  deriving DecidableEq

instance (n : Nat) : OfNat Whole n := ⟨⟨n⟩⟩

instance : Scalar Whole where
  zero := ⟨0⟩
  add x y := ⟨x.value + y.value⟩
  mul x y := ⟨x.value * y.value⟩
  sub x y := ⟨x.value - y.value⟩
  max x y := ⟨max x.value y.value⟩
  ofFloat c := if c == 0 then ⟨0⟩ else ⟨c.toInt64.toInt⟩

instance : Scalar.Commutes Whole :=
  ⟨fun x y => congrArg Whole.mk (Int.add_comm x.value y.value),fun x y => congrArg Whole.mk (Int.mul_comm x.value y.value)⟩

instance : Scalar.OneZero Whole :=
  ⟨fun _ zero => if_pos zero,fun x y => congrArg Whole.mk (Int.max_comm x.value y.value)⟩

namespace ToPrimitive

open Eval Structured
open Propagation (plain)

def greater (ins : List Value) (z : Value) (maps : List AffineMap) : Operation :=
  madeOp genericKind (ins.map some) [some z] [] (genericAttrs maps [.parallel] "")

def maximum (n i j : Nat) : List Operation :=
  [⟨Arith.maxKind,[some (.argument 1 i), some (.argument 1 j)],[.ofType (.scalar .f32)],OrderedMap.empty,none,none⟩,
    ⟨yieldKind,[some (.result n 0)],[],OrderedMap.empty,none,none⟩]

def positivePart : Graph :=
  Blocking.withBody (replicate 2 (.buffer .f32 [2])) [zeroOp (.scalar .f32),
    ontoOp fillKind (.result 0 0) (.argument 0 1) 0,
    greater [.argument 0 0] (.argument 0 1) (replicate 2 (.identityOf 1))]
    [0, 1, 2] 2 (replicate 2 (.scalar .f32)) (maximum 3 0 1)

theorem elementwiseMappedInPlace : positivePart.verify = .ok () ∧ positivePart.walkAll.Nodup ∧
    ∃ d, relu.draft ⟨relu.name, 2⟩ (.ofGraph positivePart) = .ok () d ∧ (d.commit 2).fault = none ∧
      Refines positivePart (d.commit 2).graph #[(⟨.buffer .f32 [2], #[⟨3⟩, ⟨-4⟩]⟩ : NdArray Whole),
        ⟨.buffer .f32 [2], #[⟨7⟩, ⟨8⟩]⟩] [0, 1] := by
  have ok : positivePart.verify = .ok () := by decide +kernel
  have once : positivePart.walkAll.Nodup := by decide +kernel
  obtain ⟨d,drafted⟩ := draftedOf relu 2 positivePart (by decide +kernel)
  have agrees : positivePart.Agrees 2 [2] := by
    have axes : ∀ p ∈ (Structured.indexingMaps (positivePart.op 2)).zip (positivePart.op 2).operands, ∀ v ∈ p.2,
        ∀ q ∈ p.1.results.zip (positivePart.typeOf v).dims, q = (.dim 0, 2) := by decide +kernel
    refine ⟨by decide,by decide +kernel,fun p among v here q axis pos same => ?_⟩
    cases axes p among v here q axis
    cases same
    rfl
  refine ⟨ok,once,d,drafted,elementwiseMapped (by simp) ok once (by decide +kernel) rfl (by decide +kernel) ?_
    (fun _ => agrees) (fun _ => by decide +kernel) (fun same => absurd (congrArg Rule.name same) (by decide))
    ⟨by decide +kernel,by decide,?_,by decide⟩ drafted⟩
  · intro b region
    cases region
    exact ⟨[3],4,rfl,rfl,by decide +kernel,by decide +kernel⟩
  · unfold CountedArguments
    decide +kernel

/-- What a function that passes the check leaves in its arguments, and what it leaves after a rule rewrote one of its
operations, if it still ends. -/
def left (e : List (Array Whole) × List (Array Whole)) : List (Array Whole) := e.2

def greaterAfter (args : List ValueType) (ops : List Operation) (w : Value) (m : AffineMap) (listed : List OpId) : Graph :=
  Blocking.withBody (args ++ replicate 2 (.buffer .f32 [1])) (ops ++ [greater [.argument 0 args.length, w]
    (.argument 0 (args.length + 1)) [.identityOf 1, m, .identityOf 1]]) listed ops.length (replicate 3 (.scalar .f32))
    (maximum (ops.length + 1) 0 1)

def filledInside : Graph :=
  let g := greaterAfter [.buffer .f32 [0], .buffer .f32 [1]] [zeroOp (.scalar .f32),
    madeOp genericKind [] [some (.argument 0 0)] [] (genericAttrs [.identityOf 1] [.parallel] "")] (.argument 0 1) (.identityOf 1)
    [0, 1, 2]
  { g with
    ops := g.ops.modify 1 (fun o => { o with region := some 2 }) ++
      #[ontoOp fillKind (.result 0 0) (.argument 0 1) 2,
        ⟨yieldKind,[some (.argument 2 0)],[],OrderedMap.empty,none,some 2⟩]
    blocks := g.blocks.push ⟨[.ofType (.scalar .f32)],[5, 6],some 1⟩ }

def copied (s t : ValueType) : Graph := Propagation.straight [s, t] [plain copyKind [.argument 0 0, .argument 0 1] []] [0]

theorem elementwiseMappedChanges :
    beforeThen left (relu.committed 2) (greaterAfter [.scalar .f32] [ZeroFill.zeroOp (.scalar .f32),
      ZeroFill.ontoOp fillKind (.argument 0 0) (.result 0 0) 0] (.result 0 0) ⟨1, []⟩ [0, 1, 2]) [#[5], #[3], #[7]] =
        some ([#[5], #[3], #[5]], some [#[5], #[3], #[3]]) ∧
    beforeThen left (relu.committed 3) (greaterAfter [.scalar .f32, .buffer .f32 [1]] [ZeroFill.zeroOp (.buffer .f32 [1]),
      ZeroFill.ontoOp fillKind (.argument 0 0) (.result 0 0) 0, ZeroFill.ontoOp fillKind (.result 0 0) (.argument 0 1) 0]
      (.argument 0 1) (.identityOf 1) [0, 1, 2, 3]) [#[5], #[7], #[3], #[7]] =
        some ([#[5], #[5], #[3], #[5]], some [#[5], #[5], #[3], #[3]]) ∧
    beforeThen left (relu.committed 2) filledInside [#[], #[7], #[3], #[8]] =
      some ([#[], #[7], #[3], #[7]], some [#[], #[7], #[3], #[3]]) ∧
    beforeThen left (relu.committed 4) (greaterAfter [.scalar .f32, .buffer .f32 [1], .buffer .f32 [1]]
      [ZeroFill.zeroOp (.scalar .f32), ZeroFill.ontoOp fillKind (.result 0 0) (.argument 0 1) 0, ZeroFill.ontoOp copyKind (.argument 0 1) (.argument 0 2) 0,
      ZeroFill.ontoOp fillKind (.argument 0 0) (.argument 0 1) 0] (.argument 0 2) (.identityOf 1) [0, 1, 2, 3, 2, 4])
      [#[5], #[1], #[7], #[3], #[8]] = some ([#[5], #[5], #[5], #[3], #[5]], some [#[5], #[5], #[5], #[3], #[3]]) ∧
    beforeThen left (copy.committed 0) (copied (.buffer .f32 [4294967296, 4294967296])
      (.buffer .f32 [4294967296, 4294967296])) [#[], #[]] = some ([#[], #[]], none) ∧
    beforeThen left (copy.committed 0)
      (copied (.buffer .f32 [-2, -2]) (.buffer .f32 [-2, -2])) [#[1, 2, 3, 4], #[0, 0, 0, 0]] =
      some ([#[1, 2, 3, 4], #[1, 2, 3, 4]], some [#[1, 2, 3, 4], #[0, 0, 0, 0]]) ∧
    beforeThen left (copy.committed 0) (copied ⟨.scalar, .f32, [2]⟩ (.buffer .f32 [2, 1])) [#[1, 2], #[0, 0]] =
      some ([#[1, 2], #[1, 2]], some [#[1, 2], #[1, 1]]) ∧
    beforeThen left (copy.committed 2) (Propagation.straight [.buffer .f32 [1], .buffer .f32 [1]]
      [plain Memory.castKind [.argument 0 0] [.buffer .f32 [2]], plain Memory.castKind [.argument 0 1] [.buffer .f32 [2]],
        plain copyKind [.result 0 0, .result 1 0] []] [0, 1, 2]) [#[1], #[2]] = some ([#[1], #[2]], none) := by
  refine ⟨?_,?_,?_,?_,?_,?_,?_,?_⟩ <;> decide +kernel

end ToPrimitive

end TileLower

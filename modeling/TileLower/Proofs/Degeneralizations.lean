import TileLower.Proofs.Contractions

/-!
Generic operations that are multiplications become ones, with a body of their own that yields the same. Main
statement: `contractionMapped`.
-/
namespace TileLower

open Step List

namespace Eval

variable {α : Type} {g g' : Graph} {s s' t : Machine α}

section Loops

variable {f f' : List Int64 → Exec α Unit} {R : Machine α → Machine α → Prop}

theorem eachFollows {dims} (step : ∀ idx s s' t, R s s' → f idx s = .ok () t → ∃ t', f' idx s' = .ok () t' ∧ R t t')
    (related : R s s') (ok : Box.each dims f s = .ok () t) : ∃ t', Box.each dims f' s' = .ok () t' ∧ R t t' := by
  rw [Box.eachIndices] at ok ⊢
  generalize Box.indices dims = is at ok ⊢
  induction is generalizing s s' with
  | nil =>
    cases ok
    exact ⟨s',rfl,related⟩
  | cons idx later ih =>
    obtain ⟨_,u,first,last⟩ := bindOk.mp ok
    obtain ⟨u',first',related⟩ := step idx s s' u related first
    obtain ⟨t',last',related⟩ := ih related last
    exact ⟨t',(bindOfOk first' _).trans last',related⟩

end Loops

theorem storeFresh {v} {a : NdArray α} {k x} :
    store s.memory.size k x (s.bindFresh v a) = .ok () t ↔ ∃ a', a.set k x = .ok a' ∧ t = s.bindFresh v a' := by
  have new : (s.bindFresh v a).arrayAt s.memory.size = a := s.arrayAtNew
  rw [storeOk,new]
  simp only [s.withArrayFresh,NdArray.set,Outcome.bindOk]
  constructor
  · rintro ⟨i,⟨off,offset,place⟩,rfl⟩
    exact ⟨_,⟨off,offset,i,place,rfl⟩,rfl⟩
  · rintro ⟨_,⟨off,offset,i,place,same⟩,rfl⟩
    cases same
    exact ⟨i,⟨off,offset,place⟩,rfl⟩

variable [Scalar α] {b b' : BlockId}

def Yields (α : Type) [Scalar α] (g g' : Graph) (b b' : BlockId) (n : Nat) : Prop :=
  ∀ xs ys : List α, xs.length = n → evalBody g b xs = .ok ys → evalBody g' b' xs = .ok ys

theorem accumulatesYields {mul add yield} (accumulates : Accumulates α g b) (adds : g'.MulAdds b' mul add yield) :
    Yields α g g' b b' 3 := by
  intro xs ys length ran
  obtain ⟨x,y,z,rfl⟩ := length_eq_three.mp length
  rw [accumulates x y z ys ran]
  exact mulAddsBody adds x y z []

theorem pointSame {n} {operands : List (AffineMap × Ref)} (yields : Yields α g g' b b' operands.length) {idx}
    (ok : point g b n operands idx s = .ok () t) : point g' b' n operands idx s = .ok () t := by
  obtain ⟨xs,_,ran,ok⟩ := bindOk.mp ok
  obtain ⟨ys,_,yielded,ok⟩ := bindOk.mp ok
  obtain ⟨read,rfl⟩ := loadAllOk.mp ran
  obtain ⟨body,rfl⟩ := liftOk.mp yielded
  have length : xs.length = operands.length := by rw [readAllLength read,held,length_map]
  refine bindOk.mpr ⟨xs,s,ran,bindOk.mpr ⟨ys,s,liftOk.mpr ⟨yields xs ys length body,rfl⟩,ok⟩⟩

theorem pointFresh {ins : List (AffineMap × Ref)} {m : AffineMap} (few : ins.length + 1 < wordBound)
    (old : ∀ p ∈ ins, p.2 < s.memory.size) {v} {a : NdArray α} {idx} :
    point g b (Int64.ofNat ins.length) (ins ++ [(m, s.memory.size)]) idx (s.bindFresh v a) = .ok () t ↔
      ∃ xs k x y a', readAll idx (held s ins) = .ok xs ∧ m.eval idx = .ok k ∧ a.get k = .ok x ∧
        evalBody g b (xs ++ [x]) = .ok [y] ∧ a.set k y = .ok a' ∧ t = s.bindFresh v a' := by
  have new : (s.bindFresh v a).arrayAt s.memory.size = a := s.arrayAtNew
  have inputs : held (s.bindFresh v a) ins = held s ins := map_congr_left fun p mem => by
    rw [s.arrayAtOld (old p mem)]
  have single (y : α) : storeAll idx ([(m, s.memory.size)].zip [y]) (s.bindFresh v a) = .ok () t ↔
      ∃ k, m.eval idx = .ok k ∧ ∃ a', a.set k y = .ok a' ∧ t = s.bindFresh v a' := by
    simp only [zip_cons_cons,zip_nil_right,storeAll,bindOk,liftOk,pureOk]
    constructor
    · rintro ⟨k,_,⟨at_,rfl⟩,_,_,stored,-,rfl⟩
      exact ⟨k,at_,storeFresh.mp stored⟩
    · rintro ⟨k,at_,stored⟩
      exact ⟨k,_,⟨at_,rfl⟩,(),t,storeFresh.mpr stored,trivial,rfl⟩
  rw [pointOk (by simpa using few),inputs]
  constructor
  · rintro ⟨xs,vs,ys,read,kept,body,one,stored⟩
    obtain ⟨y,rfl⟩ := length_eq_one_iff.mp one
    obtain ⟨k,at_,a',written,rfl⟩ := (single y).mp stored
    simp only [held,map_cons,map_nil,new,readAll,Outcome.bindOk,at_] at kept
    obtain ⟨_,here,x,got,_,none,same⟩ := kept
    cases here
    cases none
    cases same
    exact ⟨xs,k,x,y,a',read,at_,got,body,written,rfl⟩
  · rintro ⟨xs,k,x,y,a',read,at_,got,body,written,rfl⟩
    refine ⟨xs,[x],[y],read,?_,body,rfl,(single y).mpr ⟨k,at_,a',written,rfl⟩⟩
    simp [held,new,readAll,at_,got]

omit [Scalar α] in
theorem operandArraysThree (g : Graph) (id : OpId) (x y z : Operand) : operandArrays g id 2 0 [x, y, z] = (do
    let rx ← value g x
    let ry ← value g y
    let rz ← output g id z 0
    return [rx, ry, rz] : Exec α (List Ref)) := by
  have places : (0 : Int64) < 2 ∧ (0 + 1 : Int64) < 2 ∧ ¬ (0 + 1 + 1 : Int64) < 2 ∧ (0 + 1 + 1 - 2 : Int64) = 0 := by decide
  simp only [operandArrays,if_pos places.1,if_pos places.2.1,if_neg places.2.2.1,places.2.2.2,bind_assoc,pure_bind]

omit [Scalar α] in
theorem operandArraysInPlace {id x y z rs} (place : (g.typeOf z).isTensor = false) :
    operandArrays g id 2 0 [some x, some y, some z] s = .ok rs t ↔
      (∃ rx ry rz, s.env x = some rx ∧ s.env y = some ry ∧ s.env z = some rz ∧ rs = [rx, ry, rz]) ∧ t = s := by
  have written : output g id (some z) 0 = (value g (some z) : Exec α Ref) := by simp [output,place]
  rw [operandArraysThree,written]
  simp only [bindOk,valueOk,pureOk]
  constructor
  · rintro ⟨rx,_,⟨⟨_,same,boundX⟩,rfl⟩,ry,_,⟨⟨_,same',boundY⟩,rfl⟩,rz,_,⟨⟨_,same'',boundZ⟩,rfl⟩,rfl,rfl⟩
    cases same
    cases same'
    cases same''
    exact ⟨⟨rx,ry,rz,boundX,boundY,boundZ,rfl⟩,rfl⟩
  · rintro ⟨⟨rx,ry,rz,boundX,boundY,boundZ,rfl⟩,rfl⟩
    exact ⟨rx,t,⟨⟨x,rfl,boundX⟩,rfl⟩,ry,t,⟨⟨y,rfl,boundY⟩,rfl⟩,rz,t,⟨⟨z,rfl,boundZ⟩,rfl⟩,rfl,rfl⟩

omit [Scalar α] in
theorem operandArraysCopied {id x y z rx ry rz} (tensor : (g.typeOf z).isTensor = true)
    (one : (g.op id).results.length = 1) (boundX : s.env x = some rx) (boundY : s.env y = some ry)
    (boundZ : s.env z = some rz) :
    operandArrays g id 2 0 [some x, some y, some z] s = .ok [rx, ry, s.memory.size]
      (s.bindFresh (.result id 0) (s.arrayAt rz)) := by
  have copied : output g id (some z) 0 s = .ok s.memory.size (s.bindFresh (.result id 0) (s.arrayAt rz)) :=
    outputTensor (i := 0) tensor boundZ (by rw [one]; decide) (by rw [one]; decide)
  rw [operandArraysThree,bindOfOk (valueRun boundX),bindOfOk (valueRun boundY),bindOfOk copied]
  rfl

structure Twins (α : Type) [Scalar α] (g g' : Graph) (id new : OpId) (ms : List AffineMap) (b b' : BlockId) (x y z : Value) :
    Prop where
  maps : indexingMaps (g.op id) = .ok ms
  maps' : indexingMaps (g'.op new) = .ok ms
  three : ms.length = 3
  region : (g.op id).region = some b
  region' : (g'.op new).region = some b'
  yields : Yields α g g' b b' 3
  operands : (g.op id).operands = [some x, some y, some z]
  operands' : (g'.op new).operands = [some x, some y, some z]
  two : Structured.numInputs (g.op id) = 2
  two' : Structured.numInputs (g'.op new) = 2
  types : ∀ v ∈ [x, y, z], g'.typeOf v = g.typeOf v

namespace Twins

variable {id new : OpId} {ms : List AffineMap} {x y z : Value} (twins : Twins α g g' id new ms b b' x y z)

include twins

theorem extents {es} (ok : loopExtents g ms [some x, some y, some z] = .ok es) :
    loopExtents g' ms [some x, some y, some z] = .ok es := by
  rw [← ok]
  have types (w : Value) (mem : some w ∈ [some x, some y, some z]) : g'.typeOf w = g.typeOf w :=
    twins.types w (by simpa using mem)
  simpa using loopExtentsRenamed (f := fun v => v) types

theorem opened (ok : structured g id s = .ok () t) : ∃ es rs u, loopExtents g ms [some x, some y, some z] = .ok es ∧
    operandArrays g id 2 0 [some x, some y, some z] s = .ok rs u ∧ Box.each es (point g b 2 (ms.zip rs)) u = .ok () t := by
  obtain ⟨_,found,ok⟩ := Step.read liftOk ok
  cases found.symm.trans twins.maps
  rw [twins.region] at ok
  obtain ⟨es,extents,ok⟩ := Step.read liftOk ok
  obtain ⟨rs,u,ran,ok⟩ := bindOk.mp ok
  rw [twins.operands] at extents ran
  rw [twins.two] at ran ok
  exact ⟨es,rs,u,extents,ran,ok⟩

theorem runs {es rs u} (extents : loopExtents g ms [some x, some y, some z] = .ok es)
    (arrays : operandArrays g' new 2 0 [some x, some y, some z] s = .ok rs u)
    (points : Box.each es (point g' b' 2 (ms.zip rs)) u = .ok () t) : structured g' new s = .ok () t := by
  have extents := twins.extents extents
  rw [← twins.operands'] at extents arrays
  rw [← twins.two'] at arrays points
  rw [structured,twins.maps',twins.region']
  exact bindOk.mpr ⟨ms,s,rfl,bindOk.mpr ⟨es,s,by rw [extents]; rfl,bindOk.mpr ⟨rs,u,arrays,points⟩⟩⟩

theorem inPlace (place : (g.typeOf z).isTensor = false) (ok : structured g id s = .ok () t) :
    structured g' new s = .ok () t := by
  obtain ⟨es,rs,u,extents,arrays,points⟩ := twins.opened ok
  have place' : (g'.typeOf z).isTensor = false := by rw [twins.types z (by simp)]; exact place
  obtain ⟨bound,rfl⟩ := (operandArraysInPlace place).mp arrays
  have yields : Yields α g g' b b' (ms.zip rs).length := by
    obtain ⟨_,_,_,-,-,-,rfl⟩ := bound
    simpa [twins.three] using twins.yields
  have follows (idx : List Int64) (s s' t : Machine α) (same : s = s') (ok : point g b 2 (ms.zip rs) idx s = .ok () t) :
      ∃ t', point g' b' 2 (ms.zip rs) idx s' = .ok () t' ∧ t = t' := ⟨t,same ▸ pointSame yields ok,rfl⟩
  obtain ⟨_,points',rfl⟩ := eachFollows follows rfl points
  exact twins.runs extents ((operandArraysInPlace place').mpr ⟨bound,rfl⟩) points'

theorem copied (tensor : (g.typeOf z).isTensor = true) (one : (g.op id).results.length = 1)
    (one' : (g'.op new).results.length = 1) {rx ry rz rx' ry' rz'} (boundX : s.env x = some rx)
    (boundY : s.env y = some ry) (boundZ : s.env z = some rz) (boundX' : s'.env x = some rx')
    (boundY' : s'.env y = some ry') (boundZ' : s'.env z = some rz') (sameX : s'.arrayAt rx' = s.arrayAt rx)
    (sameY : s'.arrayAt ry' = s.arrayAt ry) (sameZ : s'.arrayAt rz' = s.arrayAt rz)
    (valid : rx < s.memory.size ∧ ry < s.memory.size) (valid' : rx' < s'.memory.size ∧ ry' < s'.memory.size)
    (ok : structured g id s = .ok () t) :
    ∃ a, t = s.bindFresh (.result id 0) a ∧ structured g' new s' = .ok () (s'.bindFresh (.result new 0) a) := by
  obtain ⟨es,rs,u,extents,arrays,points⟩ := twins.opened ok
  have tensor' : (g'.typeOf z).isTensor = true := by rw [twins.types z (by simp)]; exact tensor
  cases (operandArraysCopied tensor one boundX boundY boundZ).symm.trans arrays
  have arrays' : operandArrays g' new 2 0 [some x, some y, some z] s' = _ :=
    operandArraysCopied tensor' one' boundX' boundY' boundZ'
  obtain ⟨mx,my,mz,rfl⟩ := length_eq_three.mp twins.three
  let Added (t t' : Machine α) : Prop := ∃ a, t = s.bindFresh (.result id 0) a ∧ t' = s'.bindFresh (.result new 0) a
  have few (p q : AffineMap × Ref) : [p, q].length + 1 < wordBound := by simp [wordBound]
  have old : ∀ p ∈ [(mx, rx), (my, ry)], p.2 < s.memory.size := by simp [valid]
  have old' : ∀ p ∈ [(mx, rx'), (my, ry')], p.2 < s'.memory.size := by simp [valid']
  have follows (idx : List Int64) (u u' t : Machine α) (added : Added u u')
      (ok : point g b 2 ([mx, my, mz].zip [rx, ry, s.memory.size]) idx u = .ok () t) :
      ∃ t', point g' b' 2 ([mx, my, mz].zip [rx', ry', s'.memory.size]) idx u' = .ok () t' ∧ Added t t' := by
    obtain ⟨a,rfl,rfl⟩ := added
    obtain ⟨xs,k,v,w,a',read,at_,got,body,written,rfl⟩ := (pointFresh (few _ _) old).mp ok
    have length : (xs ++ [v]).length = 3 := by simp [readAllLength read,held]
    have read' : readAll idx (held s' [(mx, rx'), (my, ry')]) = .ok xs := by simpa [held,sameX,sameY] using read
    exact ⟨_,(pointFresh (few _ _) old').mpr
      ⟨xs,k,v,w,a',read',at_,got,twins.yields _ _ length body,written,rfl⟩,a',rfl,rfl⟩
  have start : Added (s.bindFresh (.result id 0) (s.arrayAt rz)) (s'.bindFresh (.result new 0) (s'.arrayAt rz')) :=
    ⟨_,rfl,by rw [sameZ]⟩
  obtain ⟨_,points',a,rfl,rfl⟩ := eachFollows follows start points
  exact ⟨a,rfl,twins.runs extents arrays' points'⟩

end Twins

end Eval

namespace Structured

variable (g : Graph) (ta tb tc : ValueType) (o : Operation)

theorem withMulAddName : (withMulAdd g ta tb tc o).name = g.name := by
  simp only [withMulAdd,Graph.setOwner,Graph.modifyBlock,Graph.push,bodied,Graph.append,Graph.placeInName]
  rfl

theorem withMulAddAdds : (withMulAdd g ta tb tc o).MulAdds g.blocks.size g.ops.size (g.ops.size + 1) (g.ops.size + 2) := by
  have block := withMulAddBlock g ta tb tc o
  have first := withMulAddNew g ta tb tc o (m := 0) rfl
  have second := withMulAddNew g ta tb tc o (m := 1) rfl
  have third := withMulAddNew g ta tb tc o (m := 2) rfl
  rw [Nat.add_zero] at first
  constructor
  · rw [block]; rfl
  · rw [block]
  · rw [first]
    simp only [Arith.mulOp]
    split <;> rfl
  · rw [first]; rfl
  · rw [first]; rfl
  · rw [second]
    simp only [Arith.addOp]
    split <;> rfl
  · rw [second]; rfl
  · rw [second]; rfl
  · rw [third]
  · rw [third]

end Structured

namespace Graph

variable {g h : Graph} {b : BlockId} {mul add yield : OpId}

theorem MulAdds.carry (adds : h.MulAdds b mul add yield) (block : g.block b = h.block b)
    (same : ∀ k ∈ [mul, add, yield], (g.op k).kind = (h.op k).kind ∧ (g.op k).operands = (h.op k).operands ∧
      (g.op k).results = (h.op k).results) : g.MulAdds b mul add yield := by
  obtain ⟨kindM,operandsM,resultsM⟩ := same mul (by simp)
  obtain ⟨kindA,operandsA,resultsA⟩ := same add (by simp)
  obtain ⟨kindY,operandsY,-⟩ := same yield (by simp)
  exact {
    args := block ▸ adds.args
    ops := block ▸ adds.ops
    mulKind := kindM ▸ adds.mulKind
    mulOperands := operandsM ▸ adds.mulOperands
    mulResults := resultsM ▸ adds.mulResults
    addKind := kindA ▸ adds.addKind
    addOperands := operandsA ▸ adds.addOperands
    addResults := resultsA ▸ adds.addResults
    yieldKind := kindY ▸ adds.yieldKind
    yieldOperands := operandsY ▸ adds.yieldOperands }

end Graph

namespace Blocking

open Eval

variable {α : Type} [Scalar α] {g : Graph} {s : Site} {id : OpId} {d : Draft} {memory : Array (NdArray α)} {args : List Ref}

structure Named (g : Graph) (id : OpId) (x y z : Value) (o : Operation) (d : Draft) : Prop where
  kind : o.kind = Structured.matmulKind
  operands : o.operands = [some x, some y, some z]
  two : Structured.numInputs o = 2
  graph : ∃ ta tb tc, d.graph = Structured.withMulAdd g ta tb tc o
  created : d.created = [g.ops.size + 3]
  moves : d.moves = []
  replacements : d.replacements = [(id, (d.graph.resultsOf (g.ops.size + 3)).map some)]

theorem degeneralizeOk (ok : degeneralizeMatmul.draft s (.ofGraph g) = .ok () d) :
    ∃ x y z o, (g.op s.op).operands = [some x, some y, some z] ∧ Structured.numInputs (g.op s.op) = 2 ∧
      Body.hasMatmulBody g (g.op s.op) = .ok true ∧ Body.hasMatmulMaps (g.op s.op) = .ok true ∧ Named g s.op x y z o d := by
  obtain ⟨_,tensors,ok⟩ := Step.read askOk ok
  obtain ⟨semantics,ok⟩ := Site.checkOk.mp ok
  obtain ⟨_,ok⟩ := skip checkMarkReads ok
  obtain ⟨_,⟨body,maps⟩,ok⟩ := Step.pass checkMatmulBodyOk ok
  obtain ⟨⟨a,b,c⟩,⟨inputs,outputs⟩,ok⟩ := Step.pass matmulOperandsOk ok
  obtain ⟨operands,two⟩ := Structured.splitOperands inputs outputs
  obtain ⟨_,rfl,ok⟩ := Step.read Drafting.graphOk ok
  obtain ⟨_,ok⟩ := skip checkPlanesReads ok
  obtain ⟨k,d1,made,ok⟩ := bindOk.mp ok
  obtain ⟨ta,tb,tc,outTypes,-,rfl,rfl⟩ := Structured.contractionOk made
  obtain ⟨_,rfl,ok⟩ := Step.read Drafting.graphOk ok
  obtain ⟨_,-,-,rfl⟩ := Draft.replaceOk ok
  rw [not_not.mp semantics] at tensors
  have present := Structured.allTypesOk.mp tensors
  change ∀ v ∈ (g.op s.op).operands, _ at present
  change (g.op s.op).operands = _ at operands
  rw [operands] at present
  simp only [forall_mem_cons,not_mem_nil,false_imp_iff,implies_true,and_true] at present
  obtain ⟨⟨x,rfl,-⟩,⟨y,rfl,-⟩,z,rfl,-⟩ := present
  refine ⟨x,y,z,_,operands,two,body,maps,⟨rfl,rfl,?_,⟨ta,tb,tc,rfl⟩,rfl,rfl,rfl⟩⟩
  simp [Structured.numInputs,Structured.madeOp,Attributes.int?,OrderedMap.loadStore]

theorem Named.swap {x y z} {o : Operation} (named : Named g id x y z o d) (formed : g.WellFormed) (mem : id ∈ g.walkAll)
    (ready : Prepared g id (g.Seen id) d) (kind : (g.op id).kind = Structured.genericKind) :
    (d.commit id).fault = none ∧ ∃ b vals, Swap α g (d.commit id).graph id b [g.ops.size + 3] vals ∧
      vals.length = (g.op id).results.length ∧ vals = (range o.results.length).map (.result (g.ops.size + 3) ·) ∧
      (∃ c, (d.commit id).graph.op (g.ops.size + 3) = { o with block := some c, region := some g.blocks.size }) ∧
      (d.commit id).graph.MulAdds g.blocks.size g.ops.size (g.ops.size + 1) (g.ops.size + 2) := by
  obtain ⟨target,vals,ready⟩ := ready
  obtain ⟨ta,tb,tc,graph⟩ := named.graph
  obtain rfl := ready.unmoved named.moves
  have last : d.graph.op (g.ops.size + 3) = { o with region := some g.blocks.size } := by
    rw [graph,Structured.withMulAddLast]
  obtain ⟨b,scope,place⟩ := Graph.atOfWalk .body mem
  have block := place.block formed
  obtain ⟨whole,b',swap,made⟩ := Swap.ofReady (α := α) ready formed mem (.inl rfl) (by rw [kind]; decide)
    (by rw [graph,Structured.withMulAddName]) (fun k listed => by
      rw [named.created] at listed
      rw [mem_singleton.mp listed,last,named.kind]
      decide)
  have new := made (g.ops.size + 3) (by rw [named.created]; exact mem_singleton_self _)
  rw [named.created] at swap
  refine ⟨whole,b',vals,swap,ready.length,?_,⟨b',by rw [new,last]; rfl⟩,?_⟩
  · rw [ready.values named.replacements,Graph.resultsOf,last]
  · have adds := graph ▸ Structured.withMulAddAdds g ta tb tc o
    refine adds.carry (ready.madeBlock formed.sound mem block place whole (le_rfl)) fun k inner => ?_
    have facts : g.ops.size ≤ k ∧ ∀ i, some (.result id i) ∉ (d.graph.op k).operands := by
      have before (m i : Nat) : (.result id i : Value) ≠ .result (g.ops.size + m) 0 := fun same =>
        Nat.not_lt.mpr (Nat.le_add_right _ m) ((Value.result.inj same).1 ▸ ready.within)
      simp only [mem_cons,not_mem_nil,or_false] at inner
      rcases inner with rfl | rfl | rfl
      · exact ⟨le_rfl,by simp [adds.mulOperands]⟩
      · exact ⟨Nat.le_add_right ..,fun i => by simpa [adds.addOperands] using before 0 i⟩
      · exact ⟨Nat.le_add_right ..,fun i => by simpa [adds.yieldOperands] using before 1 i⟩
    rw [ready.madeNew block whole facts.1 facts.2]
    exact ⟨rfl,rfl,rfl⟩

omit [Scalar α] in
theorem suitsAny (j : OpId) : Suits α (fun _ => True) (fun _ _ _ => True) g j :=
  ⟨fun _ _ _ _ => trivial,.inr fun _ _ => trivial,fun _ _ _ _ => trivial,fun _ _ _ _ _ _ _ _ _ => trivial,
    fun _ _ _ _ _ _ => trivial⟩

theorem Named.refines {x y z o b} (named : Named g id x y z o d) (formed : g.WellFormed) (mem : id ∈ g.walkAll)
    (ready : Prepared g id (g.Seen id) d) (kind : (g.op id).kind = Structured.genericKind)
    (built : g.Built id) (operands : (g.op id).operands = [some x, some y, some z])
    (two : Structured.numInputs (g.op id) = 2) (maps : Eval.indexingMaps (g.op id) = .ok Structured.matmulMaps)
    (region : (g.op id).region = some b) (accumulates : Accumulates α g b) (valid : ∀ r ∈ args, r < memory.size) :
    RefinesBy g d id memory args := by
  obtain ⟨fault,home,vals,swap,length,values,⟨c,op⟩,adds⟩ := named.swap (α := α) formed mem ready kind
  refine ⟨fault,?_⟩
  generalize (d.commit id).graph = g' at swap op adds
  have kind' : (g'.op (g.ops.size + 3)).kind = Structured.matmulKind := by rw [op]; exact named.kind
  obtain ⟨isStructured,old⟩ := evalOpContraction (α := α) (show (g.op id).kind ∈ _ by rw [kind]; simp)
  obtain ⟨-,new⟩ := evalOpContraction (α := α) (show (g'.op (g.ops.size + 3)).kind ∈ _ by rw [kind']; simp)
  have results : (g.op id).results.map Slot.type = g.tensorTypes [some z] := by
    have types := (built.split isStructured).2.2
    rwa [two,operands] at types
  have twins {pre post : List OpId} (split : (g.block Graph.body).ops = pre ++ id :: post) :
      Twins α g g' id (g.ops.size + 3) Structured.matmulMaps b g.blocks.size x y z := {
    maps
    maps' := by rw [Eval.indexingMaps,kind']; rfl
    three := rfl
    region
    region' := by rw [op]
    yields := accumulatesYields accumulates adds
    operands
    operands' := by rw [op]; exact named.operands
    two
    two' := by rw [op]; exact named.two
    types := fun v used => (swap.operandKnown split (by rw [operands]; simpa using used)).2.2 }
  cases tensor : (g.typeOf z).isTensor with
  | false =>
    have none : (g.op id).results = [] := by simpa [Graph.tensorTypes,tensor] using results
    obtain rfl : vals = [] := length_eq_zero_iff.mp (by rw [length,none]; rfl)
    refine swap.refinesInPlace (F := fun _ _ _ => True) (Nat.le_add_right ..) (fun v used => ?_) (fun j _ _ => suitsAny j)
      (fun _ _ _ => trivial) (fun _ _ _ _ _ => trivial) valid fun pre post split s t _ _ ok => ?_
    · rw [op] at used
      rw [operands,← named.operands]
      exact used
    · rw [old] at ok
      rw [new]
      exact (twins split).inPlace tensor ok
  | true =>
    have one : (g.op id).results.length = 1 := by
      simpa [Graph.tensorTypes,tensor] using congrArg List.length results
    have one' : o.results.length = 1 := by simpa [values,one] using length
    obtain rfl : vals = [.result (g.ops.size + 3) 0] := by rw [values,one']; rfl
    refine swap.refinesOne (F := fun _ _ _ => True) (fun j _ _ => suitsAny j) (fun _ none => absurd trivial none)
      (fun _ _ _ _ _ => trivial) rfl valid fun pre post split p s s' t agree ok => ?_
    rw [old] at ok
    have known (v : Value) (used : v ∈ [x, y, z]) := swap.operandKnown split (v := v) (by rw [operands]; simpa using used)
    obtain ⟨_,_,_,-,-,-,bound⟩ := structuredOpens (fun v used => (swap.operandKnown split used).2.1) ok
    have holds (v : Value) (used : v ∈ [x, y, z]) : ∃ r r', s.env v = some r ∧ s'.env v = some r' ∧ r < s.memory.size ∧
        r' < s'.memory.size ∧ s'.arrayAt r' = s.arrayAt r := by
      obtain ⟨_,r,same,found⟩ := bound (some v) (by rw [operands]; simpa using used)
      cases same
      obtain ⟨below,other,-⟩ := known v used
      obtain ⟨r',kept⟩ := agree.kept below other found
      exact ⟨r,r',found,kept⟩
    obtain ⟨rx,rx',boundX,boundX',validX,validX',sameX⟩ := holds x (by simp)
    obtain ⟨ry,ry',boundY,boundY',validY,validY',sameY⟩ := holds y (by simp)
    obtain ⟨rz,rz',boundZ,boundZ',-,-,sameZ⟩ := holds z (by simp)
    obtain ⟨a,rfl,ran⟩ := (twins split).copied tensor one (by rw [op]; exact one') boundX boundY boundZ boundX' boundY' boundZ'
      sameX sameY sameZ ⟨validX,validY⟩ ⟨validX',validY'⟩ ok
    rw [← new] at ran
    exact ⟨a,.one ran (Nat.le_add_right ..),rfl,trivial⟩

end Blocking

namespace ToPrimitive

open Eval Structured

variable {α : Type} [Scalar α] {g : Graph} {id : OpId} {d : Draft} {memory : Array (NdArray α)} {args : List Ref}

theorem degeneralized [Scalar.Commutes α] (formed : g.WellFormed) (mem : id ∈ g.walkAll)
    (root : (g.op id).kind = genericKind) (built : g.Built id) (bodied : g.Bodied id)
    (drafted : Blocking.degeneralizeMatmul.draft ⟨Blocking.degeneralizeMatmul.name,id⟩ (.ofGraph g) = .ok () d)
    (valid : ∀ r ∈ args, r < memory.size) : RefinesBy g d id memory args := by
  obtain ⟨x,y,z,o,operands,two,body,maps,named⟩ := Blocking.degeneralizeOk drafted
  have sight := formed.sightOf mem
  obtain ⟨b,region⟩ : ∃ b, (g.op id).region = some b := by
    cases region : (g.op id).region with
    | some b => exact ⟨b,rfl⟩
    | none => simp [Body.hasMatmulBody,region] at body
  refine named.refines formed mem (Blocking.degeneralizeMatmulReady sight drafted) root built operands two ?_ region
    (genericAccumulates bodied region formed mem root body) valid
  rw [Eval.indexingMaps,root,(Body.ofHasMatmulMaps maps).1]
  rfl

/-- Mapping a contraction preserves the meaning of a function. Sums and products of two scalars are assumed to commute,
nothing else. Primitives write a buffer element by element where the loops may not run at all, so for them arrays must be
what they are declared to be, and the elements of the output must be countable. -/
theorem contractionMapped [Scalar.Commutes α] {r : Rule}
    (listed : r ∈ [matmul, genericMatmul, brgemm, Blocking.degeneralizeMatmul]) (ok : g.verify = .ok ())
    (once : g.walkAll.Nodup) (mem : id ∈ g.walkAll) (root : (g.op id).kind = r.root) (built : g.Built id) (bodied : g.Bodied id)
    (placed : r ∈ [matmul, genericMatmul, brgemm] → Placed g id memory args) (valid : ∀ r ∈ args, r < memory.size)
    (drafted : r.draft ⟨r.name, id⟩ (.ofGraph g) = .ok () d) :
    (d.commit id).fault = none ∧ Refines g (d.commit id).graph memory args := by
  have formed := Graph.wellFormedOfVerify ok once
  rcases List.mem_append.mp (show r ∈ [matmul, genericMatmul, brgemm] ++ [Blocking.degeneralizeMatmul] from listed) with
    buffers | tensors
  · exact placedRefines buffers formed mem root built bodied (placed buffers) valid drafted
  · obtain rfl := List.mem_singleton.mp tensors
    exact degeneralized formed mem root built bodied drafted valid

def contracted (args : List ValueType) (ops : List Operation) (o : Operation) (body : List Operation) (listed : List OpId) :
    Graph :=
  Blocking.withBody args (ops ++ [o]) listed ops.length (replicate 3 (.scalar .f32)) body

def marked (x y z : Value) (t : ValueType) : Operation :=
  madeOp genericKind [some x, some y] [some z] [t] (genericAttrs matmulMaps matmulIterators Primitive.matmulKind)

def castProduct : Graph :=
  let scalar (kind : String) (operands : List Operand) (results : Nat) : Operation :=
    ⟨kind,operands,replicate results (.ofType (.scalar .f32)),OrderedMap.empty,none,none⟩
  contracted (replicate 3 (.buffer .f32 [2, 2])) [] (marked (.argument 0 0) (.argument 0 1) (.argument 0 2) (.buffer .f32 [2, 2]))
    [scalar Arith.mulFloatKind [some (.argument 1 1), some (.argument 1 0)] 1, scalar Arith.extendKind [some (.result 1 0)] 1,
      scalar Arith.addFloatKind [some (.result 2 0), some (.argument 1 2)] 1, scalar yieldKind [some (.result 3 0)] 0] [0]

theorem contractionMappedProduct : castProduct.verify = .ok () ∧ castProduct.walkAll.Nodup ∧
    ∃ d, genericMatmul.draft ⟨genericMatmul.name, 0⟩ (.ofGraph castProduct) = .ok () d ∧ (d.commit 0).fault = none ∧
      Refines castProduct (d.commit 0).graph #[(⟨.buffer .f32 [2, 2], #[1, 2, 3, 4]⟩ : NdArray Int),
        ⟨.buffer .f32 [2, 2], #[5, 6, 7, 8]⟩, ⟨.buffer .f32 [2, 2], #[1, 1, 1, 1]⟩] [0, 1, 2] := by
  have ok : castProduct.verify = .ok () := by decide +kernel
  have once : castProduct.walkAll.Nodup := by decide +kernel
  obtain ⟨d,drafted⟩ := draftedOf genericMatmul 0 castProduct (by decide +kernel)
  refine ⟨ok,once,d,drafted,contractionMapped (by simp) ok once (by decide +kernel) rfl (by decide +kernel) ?_ (fun _ => ?_)
    (by decide) drafted⟩
  · intro b region
    cases region
    exact ⟨[1, 2, 3],4,rfl,rfl,by decide +kernel,by decide +kernel⟩
  · refine ⟨?_,?_,by decide +kernel,?_,by decide⟩
    · rintro u v w ⟨⟩
      decide
    · rintro u v w ⟨⟩
      decide +kernel
    · unfold CountedArguments
      decide +kernel

theorem contractionMappedChanges :
    beforeThen returned (matmul.committed 0) (contracted [.buffer .f32 [8589934592, 0], .buffer .f32 [0, 8589934592],
      .buffer .f32 [8589934592, 8589934592]] []
      (madeOp matmulKind [some (.argument 0 0), some (.argument 0 1)] [some (.argument 0 2)] [] OrderedMap.empty)
      (Blocking.contracting 1) [0]) [#[], #[], #[]] = some ([], none) ∧
    beforeThen returned (matmul.committed 1) (contracted [.buffer .f32 [2, 0], .buffer .f32 [0, 2], .buffer .f32 [1]]
      [Propagation.plain Memory.castKind [.argument 0 2] [.buffer .f32 [2, 2]]]
      (madeOp matmulKind [some (.argument 0 0), some (.argument 0 1)] [some (.result 0 0)] [] OrderedMap.empty)
      (Blocking.contracting 2) [0, 1]) [#[], #[], #[1]] = some ([], none) ∧
    beforeThen returned (matmul.committed 1) (contracted [.buffer .f32 [1, 1], .buffer .f32 [1, 1], .tensor .f32 [2, 2]]
      [Propagation.plain copyKind [.argument 0 2, .argument 0 2] [.buffer .f32 [1, 1]]]
      (madeOp matmulKind [some (.argument 0 0), some (.argument 0 1)] [some (.result 0 0)] [] OrderedMap.empty)
      (Blocking.contracting 2) [0, 1]) [#[2], #[3], #[1, 2, 3, 4]] = some ([], none) ∧
    beforeThen returned (Blocking.degeneralizeMatmul.committed 2) (contracted (List.replicate 4 (.tensor .f32 [1, 1]))
      [Propagation.plain Memory.copyKind [.argument 0 3, .argument 0 0] [],
        Propagation.plain Memory.returnKind [.result 2 0] []]
      (marked (.argument 0 0) (.argument 0 1) (.argument 0 2) (.tensor .f32 [1, 1])) (Blocking.contracting 3) [2, 0, 2, 1])
      [#[1], #[2], #[3], #[10]] = some ([#[23]], some [#[5]]) := by
  refine ⟨?_,?_,?_,?_⟩ <;> decide +kernel

end ToPrimitive

end TileLower

import TileLower.Proofs.Makers

/-!
The rules of the catalogue. Main statement: `Catalogue.ready`, whatever a rule drafts replaces its anchor by values
that are visible there or new, moves the region of the anchor at most, and erases nothing else.
-/
namespace TileLower

open Structured Drafting Step Draft TileLower.Graph List Site Relayout Outcome Kernel

variable {g : Graph} {V : Operand → Prop} {s : Site} {d e : Draft}

namespace Blocking

/- More operations are staged, after which all these values are offered. -/
abbrev StagesMore (g : Graph) (id : OpId) (V : Operand → Prop) (target : Option OpId) (ops : List Operation) (e : Draft)
    (vs : List Operand) : Prop :=
  ∃ more, Staged g id V target (ops ++ more) e ∧ ∀ v ∈ vs, Offers g V (ops ++ more) v

theorem stagesMoreNil {id target ops} (staged : Staged g id V target ops d) : StagesMore g id V target ops d [] :=
  ⟨[],by simpa using staged,nofun⟩

theorem stagesMoreCons {id target ops v vs} {x : Drafting (List Operand)} (more : List Operation)
    (offered : Offers g V (ops ++ more) v) (later : ∀ {vs}, x d = .ok vs e → StagesMore g id V target (ops ++ more) e vs)
    (ok : (do let vs ← x; pure (v :: vs)) d = .ok vs e) : StagesMore g id V target ops e vs := by
  obtain ⟨vs,d2,rest,ok⟩ := bindOk.mp ok
  cases ok
  obtain ⟨more',staged,results⟩ := later rest
  refine ⟨more ++ more',by rwa [append_assoc] at staged,forall_mem_cons.mpr ⟨?_,?_⟩⟩
  · rw [← append_assoc]
    exact offered.mono more'
  · rwa [append_assoc] at results

theorem packAllStaged {id target ops} (staged : Staged g id V target ops d) {ps}
    (offered : ∀ p ∈ ps, Offers g V ops p.value) {vs} (ok : packAll s ps d = .ok vs e) :
    StagesMore g id V target ops e vs := by
  induction ps generalizing ops d vs with
  | nil =>
    cases ok
    exact stagesMoreNil staged
  | cons p ps ih =>
    obtain ⟨here,later⟩ := forall_mem_cons.mp offered
    obtain ⟨v,d1,ran,ok⟩ := bindOk.mp ok
    obtain ⟨more,staged,result⟩ := staged.pack here (expectOk.mp ran)
    exact stagesMoreCons more result (ih staged fun q mem => (later q mem).mono more) ok

theorem replaceWithBlockedReady (sight : Sight g s.op V) {ops} (staged : Staged g s.op V none ops d)
    {ins out maps iterators} {flat : Packing} (offered : ∀ v ∈ ins ++ [out], Offers g V ops v)
    (dest : Offers g V ops flat.value) (ok : replaceWithBlocked s ins out maps iterators flat d = .ok () e) :
    Prepared g s.op V e := by
  obtain ⟨k,d1,made,ok⟩ := bindOk.mp ok
  obtain ⟨_,d2,listed,ok⟩ := bindOk.mp ok
  obtain ⟨o,rfl,staged⟩ := staged.structured offered made listed
  obtain ⟨_,d3,moved,ok⟩ := bindOk.mp ok
  have staged := staged.moveRegion rfl ⟨ops.length,by simp,rfl⟩ moved
  obtain ⟨result,found,ok⟩ := read askOk ok
  have offered' := Staged.resultAt staged found
  obtain ⟨w,d4,unpacked,ok⟩ := bindOk.mp ok
  obtain ⟨o',staged,offered'⟩ := staged.unpack offered' (dest.mono _) (expectOk.mp unpacked)
  exact ⟨_,staged.replace sight (fun v mem => mem_singleton.mp mem ▸ offered') ok⟩

theorem blockWithReady (sight : Sight g s.op V) {a b c maps iterators}
    (ok : blockWith s a b c maps iterators (ofGraph g) = .ok () e) : Prepared g s.op V e := by
  obtain ⟨⟨ins,outs⟩,⟨inputs,outputs⟩,ok⟩ := read operandsAtOk ok
  obtain ⟨left,right⟩ := operandsMem inputs outputs
  obtain ⟨v0,at0,ok⟩ := read nthOk ok
  obtain ⟨v1,at1,ok⟩ := read nthOk ok
  obtain ⟨v2,at2,ok⟩ := read nthOk ok
  obtain ⟨_,-,ok⟩ := read checkDividesOk ok
  have seen : ∀ p ∈ [Packing.mk v0 a, ⟨v1,b⟩, ⟨v2,c⟩], Offers g V [] p.value := by
    simp only [forall_mem_cons,not_mem_nil,false_imp_iff,implies_true,and_true]
    exact ⟨.inl (sight.operands v0 (left v0 (mem_of_getElem? at0))),
      .inl (sight.operands v1 (left v1 (mem_of_getElem? at1))),
      .inl (sight.operands v2 (right v2 (mem_of_getElem? at2)))⟩
  obtain ⟨vs,d1,packed,ok⟩ := bindOk.mp ok
  obtain ⟨more,staged,offered⟩ := packAllStaged (Staged.start g s.op V) seen packed
  have dest := (seen ⟨v2,c⟩ (by simp)).mono more
  rw [nil_append] at staged offered dest
  match vs, ok with
  | [pa, pb, pc], ok => exact replaceWithBlockedReady sight staged offered dest ok
  | [], ok | [_], ok | [_, _], ok | _ :: _ :: _ :: _ :: _, ok => cases ok

theorem matmulReady {tiles} (sight : Sight g s.op V) (ok : (matmul tiles).draft s (ofGraph g) = .ok () e) :
    Prepared g s.op V e := by
  obtain ⟨_,⟨three,-⟩,ok⟩ := read checkTilesOk ok
  obtain ⟨_,-,ok⟩ := read checkOperandsOk ok
  match tiles, three, ok with
  | [ti, tj, tk], _, ok => exact blockWithReady sight ok

theorem blockConvReady {tiles image output filter} (sight : Sight g s.op V)
    (ok : blockConv s tiles image filter output (ofGraph g) = .ok () e) : Prepared g s.op V e := by
  obtain ⟨_,⟨two,-⟩,ok⟩ := read checkTilesOk ok
  obtain ⟨_,-,ok⟩ := read checkOperandsOk ok
  obtain ⟨_,rfl,ok⟩ := read graphOk ok
  obtain ⟨-,ok⟩ := Site.checkOk.mp ok
  obtain ⟨tc,tk,rfl⟩ := length_eq_two.mp two
  generalize strides _ = strides at ok
  match strides, ok with
  | [sh, sw], ok => exact blockWithReady sight ok
  | [], ok | [_], ok | _ :: _ :: _ :: _, ok => exact absurd ok declineOk

theorem checkHalfReads {vs} (ok : checkHalf s vs d = .ok () e) : e = d := by
  induction vs generalizing d with
  | nil => cases ok; rfl
  | cons v vs ih =>
    obtain ⟨_,-,ok⟩ := read typeOfOk ok
    obtain ⟨-,ok⟩ := Site.checkOk.mp ok
    exact ih ok

theorem primitiveMake {kind ins out k} (ok : Primitive.make kind ins out d = .ok k e) : k = d.graph.ops.size ∧
      ∃ results, e = { d with graph := d.graph.push ⟨kind,ins ++ [out],results,OrderedMap.empty,none,none⟩ } := by
  obtain ⟨_,-,ok⟩ := read typeOfOk ok
  rw [makeRun] at ok
  cases ok
  exact ⟨rfl,_,rfl⟩

theorem vnniMatmulReady {tiles} (sight : Sight g s.op V) (ok : (vnniMatmul tiles).draft s (ofGraph g) = .ok () e) :
    Prepared g s.op V e := by
  obtain ⟨_,-,ok⟩ := read checkTilesOk ok
  obtain ⟨_,-,ok⟩ := read checkOperandsOk ok
  obtain ⟨⟨ins,outs⟩,⟨inputs,outputs⟩,ok⟩ := read operandsAtOk ok
  obtain ⟨left,right⟩ := operandsMem inputs outputs
  obtain ⟨_,rfl,ok⟩ := read graphOk ok
  obtain ⟨_,ok⟩ := skip checkHalfReads ok
  obtain ⟨v1,at1,ok⟩ := read nthOk ok
  obtain ⟨_,-,ok⟩ := read checkDividesOk ok
  have seen : ∀ p ∈ [Packing.mk v1 (.vnni (tiles.headD 0))], Offers g V [] p.value := fun p mem =>
    mem_singleton.mp mem ▸ .inl (sight.operands v1 (left v1 (mem_of_getElem? at1)))
  obtain ⟨vs,d1,packed,ok⟩ := bindOk.mp ok
  obtain ⟨more,staged,offered⟩ := packAllStaged (Staged.start g s.op V) seen packed
  match vs, ok with
  | [pb], ok =>
    obtain ⟨v0,at0,ok⟩ := read nthOk ok
    obtain ⟨v2,at2,ok⟩ := read nthOk ok
    obtain ⟨k,d2,made,ok⟩ := bindOk.mp ok
    obtain ⟨rfl,results,rfl⟩ := primitiveMake made
    refine ⟨_,staged.replaceWithNew sight ⟨rfl,rfl⟩ ?_ ok⟩
    simp only [cons_append,nil_append,forall_mem_cons,not_mem_nil,false_imp_iff,implies_true,
      and_true]
    exact ⟨.inl (sight.operands v0 (left v0 (mem_of_getElem? at0))),offered pb (by simp),
      .inl (sight.operands v2 (right v2 (mem_of_getElem? at2)))⟩
  | [], ok | _ :: _ :: _, ok => cases ok

theorem checkPlanesReads {vs} (ok : checkPlanes s vs d = .ok () e) : e = d := by
  induction vs generalizing d with
  | nil => cases ok; rfl
  | cons v vs ih =>
    obtain ⟨_,-,ok⟩ := read typeOfOk ok
    exact ih (Site.checkOk.mp ok).2

theorem checkMarkReads (ok : checkMark s d = .ok () e) : e = d := by
  obtain ⟨_,rfl,ok⟩ := read graphOk ok
  exact (Site.guardOk.mp ok).2.symm

theorem checkMatmulBodyOk (ok : checkMatmulBody s d = .ok () e) :
    (Body.hasMatmulBody d.graph (d.graph.op s.op) = .ok true ∧ Body.hasMatmulMaps (d.graph.op s.op) = .ok true) ∧
      e = d := by
  obtain ⟨_,body,ok⟩ := read askOk ok
  obtain ⟨isBody,ok⟩ := Site.checkOk.mp ok
  obtain ⟨_,maps,ok⟩ := read askOk ok
  obtain ⟨areMaps,rfl⟩ := Site.guardOk.mp ok
  rw [not_not] at isBody areMaps
  exact ⟨⟨isBody ▸ body,areMaps ▸ maps⟩,rfl⟩

theorem matmulOperandsOk {a b c} (ok : matmulOperands s d = .ok (a, b, c) e) :
    (Structured.inputs (d.graph.op s.op) = .ok [a, b] ∧ Structured.outputs (d.graph.op s.op) = .ok [c]) ∧ e = d := by
  obtain ⟨⟨ins,outs⟩,⟨inputs,outputs⟩,ok⟩ := Step.read operandsAtOk ok
  match ins, outs, ok with
  | [_, _], [_], ok =>
    cases ok
    exact ⟨⟨inputs,outputs⟩,rfl⟩
  | [], _, ok | [_], _, ok | _ :: _ :: _ :: _, _, ok => exact absurd ok declineOk
  | [_, _], [], ok | [_, _], _ :: _ :: _, ok => exact absurd ok declineOk

theorem matmulOperandsMem {a b c} (ok : matmulOperands s d = .ok (a, b, c) e) :
    ∀ v ∈ [a, b, c], v ∈ (d.graph.op s.op).operands := by
  obtain ⟨⟨inputs,outputs⟩,-⟩ := matmulOperandsOk ok
  obtain ⟨left,right⟩ := operandsMem inputs outputs
  simp only [forall_mem_cons,not_mem_nil,false_imp_iff,implies_true,and_true] at left right ⊢
  exact ⟨left.1,left.2,right⟩

/- The new multiplication comes with a block of its own, in which every value is its own. -/
theorem newBodyOfMulAdd {id} (deep : (g.op id).region.isSome) (ta tb tc : ValueType) (o : Operation) :
    NewBody g id (withMulAdd g ta tb tc o) (g.ops.size + 3) g.blocks.size := by
  have block := withMulAddBlock g ta tb tc o
  have first := withMulAddNew g ta tb tc o (m := 0) rfl
  have second := withMulAddNew g ta tb tc o (m := 1) rfl
  have third := withMulAddNew g ta tb tc o (m := 2) rfl
  rw [Nat.add_zero] at first
  refine ⟨deep,le_rfl,by rw [block],?_,?_,fun region => ?_⟩
  · rw [block]
    exact nodup_range' (s := g.ops.size) (n := 3)
  · rw [block]
    simp only [forall_mem_cons,first,second,third,Arith.mulOp,Arith.addOp]
    simp
  · have args : (withMulAdd g ta tb tc o).argumentsOf g.blocks.size =
        [.argument g.blocks.size 0, .argument g.blocks.size 1, .argument g.blocks.size 2] := by
      rw [argumentsOf,block]
      rfl
    have product : (withMulAdd g ta tb tc o).resultsOf g.ops.size = [.result g.ops.size 0] := by
      rw [resultsOf,first]
      rfl
    have sum : (withMulAdd g ta tb tc o).resultsOf (g.ops.size + 1) = [.result (g.ops.size + 1) 0] := by
      rw [resultsOf,second]
      rfl
    rw [args,block,OpsFormed,OpsFormed,OpsFormed,product,sum]
    refine ⟨⟨by rw [first],?_,by simp [first,Arith.mulOp],by simp [first,Arith.mulOp]⟩,
      ⟨by rw [second],?_,by simp [second,Arith.addOp],by simp [second,Arith.addOp]⟩,
      ⟨by rw [third],?_,by simp [third],by simp [third]⟩,trivial⟩
    · simp [first,Arith.mulOp]
    · simp [second,Arith.addOp]
    · simp [third]

theorem newBodyReady {id : OpId} (sight : Sight g id V) (deep : (g.op id).region.isSome) {a b c : Operand}
    (seen : ∀ v ∈ [a, b, c], V v) {ta tb tc : ValueType} {kind : String} {outTypes : List ValueType} {attrs : Attributes}
    (ok : replace id (((withMulAdd g ta tb tc
        (madeOp kind [a, b] [c] outTypes attrs)).resultsOf (g.ops.size + 3)).map some)
      { ofGraph g with
        graph := withMulAdd g ta tb tc (madeOp kind [a, b] [c] outTypes attrs)
        created := [g.ops.size + 3] } = .ok () e) : ∃ vals, Ready g id V none vals e := by
  obtain ⟨vals,same,types,rfl⟩ := replaceOk ok
  have results := map_injective_iff.mpr (Option.some_injective _) same
  generalize made : madeOp kind [a, b] [c] outTypes attrs = o at *
  have old {j : OpId} (within : j < g.ops.size) : (withMulAdd g ta tb tc o).op j = g.op j := by
    rw [withMulAddInner _ _ _ _ _ (Nat.lt_add_right 3 within),bodiedOld _ _ _ _ within]
  have last := withMulAddLast g ta tb tc o
  have anchor := old sight.within
  simp only [anchor] at types
  refine ⟨vals,{
    within := sight.within
    size := by simp [withMulAddSize]
    old := fun j within => old within
    blocks := by simp [withMulAddBlocks]
    oldBlock := fun c within => withMulAddOldBlock g ta tb tc o within
    new := by simp [withMulAddSize]
    once := by simp
    plain := fun k mem => by rw [mem_singleton.mp mem,last,← made]; rfl
    operands := fun pre k post split v mem => ?_
    regions := fun k mem r region => ?_
    aim := nofun
    moves := rfl
    replacements := by rw [same]; rfl
    erased := rfl
    known := fun v mem => .inr (by simpa [results] using mem)
    length := by simpa using congrArg length types
    types := fun i v at_ => typesAt types at_ }⟩
  · obtain ⟨rfl,rfl,-⟩ : pre = [] ∧ g.ops.size + 3 = k ∧ [] = post := by cases pre <;> simp_all
    rw [last,← made] at mem
    exact .inl (seen v mem)
  · obtain rfl := mem_singleton.mp mem
    rw [last] at region
    cases region
    exact newBodyOfMulAdd deep ta tb tc o

theorem degeneralizeMatmulReady (sight : Sight g s.op V)
    (ok : degeneralizeMatmul.draft s (ofGraph g) = .ok () e) : Prepared g s.op V e := by
  obtain ⟨_,-,ok⟩ := read askOk ok
  obtain ⟨-,ok⟩ := Site.checkOk.mp ok
  obtain ⟨_,ok⟩ := skip checkMarkReads ok
  obtain ⟨_,⟨body,-⟩,ok⟩ := Step.pass checkMatmulBodyOk ok
  obtain ⟨⟨a,b,c⟩,_,ran,ok⟩ := bindOk.mp ok
  have mem := matmulOperandsMem ran
  obtain ⟨-,rfl⟩ := matmulOperandsOk ran
  obtain ⟨_,rfl,ok⟩ := read graphOk ok
  obtain ⟨_,ok⟩ := skip checkPlanesReads ok
  obtain ⟨k,d1,made,ok⟩ := bindOk.mp ok
  obtain ⟨ta,tb,tc,outTypes,-,rfl,rfl⟩ := contractionOk made
  obtain ⟨_,rfl,ok⟩ := read graphOk ok
  have deep : (g.op s.op).region.isSome := by
    cases region : (g.op s.op).region with
    | some r => rfl
    | none => simp [Body.hasMatmulBody,ofGraph,region] at body
  exact ⟨none,newBodyReady sight deep (fun v seen => sight.operands v (mem v seen)) ok⟩

end Blocking

namespace Propagation

open Blocking

theorem definingOpOk {v id} (ok : definingOp v = .ok (some id)) : ∃ i, v = some (.result id i) := by
  match v, ok with
  | some (.result _ i), ok =>
    cases ok
    exact ⟨i,rfl⟩

theorem producerOk {p : Operation → Bool} {v id} (ok : (do
      match ← definingOp v with
      | some id => .ok (if p (g.op id) then some id else none)
      | none => .ok none) = (.ok (some id) : Outcome _)) : (∃ i, v = some (.result id i)) ∧ p (g.op id) = true := by
  obtain ⟨defining,found,ok⟩ := bindOk.mp ok
  cases defining with
  | none => cases ok
  | some j =>
    by_cases holds : p (g.op j) = true
    · simp only [holds,if_true] at ok
      cases ok
      exact ⟨definingOpOk found,holds⟩
    · simp only [holds] at ok
      cases ok

theorem unpackOfOk {v id} (ok : unpackOf? g v = .ok (some id)) :
    (∃ i, v = some (.result id i)) ∧ isUnpack (g.op id) = true :=
  producerOk ok

theorem packOfOk {v id} (ok : packOf? g v = .ok (some id)) :
    (∃ i, v = some (.result id i)) ∧ isPack (g.op id) = true :=
  producerOk ok

theorem unpackInside {u} (kind : isUnpack (g.op u) = true) : u < g.ops.size := by
  by_contra outside
  rw [opOutside outside] at kind
  exact absurd kind (by decide)

theorem throughPadReady (sight : Sight g s.op V) (ok : throughPad.draft s (ofGraph g) = .ok () e) :
    Prepared g s.op V e := by
  obtain ⟨producer,asked,ok⟩ := read askOk ok
  obtain ⟨v,found,producing⟩ := bindOk.mp asked
  cases producer with
  | none => exact absurd ok declineOk
  | some unpack =>
    obtain ⟨⟨i,rfl⟩,-⟩ := unpackOfOk producing
    have source := sight.closed unpack i (sight.operands _ (mem_of_getElem? (operandAtOk.mp found)))
    obtain ⟨_,rfl,ok⟩ := read graphOk ok
    obtain ⟨axes,-,ok⟩ := read askOk ok
    generalize find? _ axes = tiled at ok
    cases tiled with
    | some axis => exact absurd ok declineOk
    | none =>
      obtain ⟨low,-,ok⟩ := read askOk ok
      obtain ⟨high,-,ok⟩ := read askOk ok
      obtain ⟨x,atX,ok⟩ := read askOk ok
      obtain ⟨value,atValue,ok⟩ := read askOk ok
      obtain ⟨padded,d1,ran,ok⟩ := bindOk.mp ok
      obtain ⟨o,staged,offered⟩ := (Staged.start g s.op V).pad
        (.inl (source x (mem_of_getElem? (operandAtOk.mp atX))))
        (.inl (sight.operands value (mem_of_getElem? (operandAtOk.mp atValue)))) (expectOk.mp ran)
      obtain ⟨result,-,ok⟩ := read askOk ok
      obtain ⟨dest,d2,ran,ok⟩ := bindOk.mp ok
      rw [Memory.emptyRun] at ran
      cases ran
      have staged' := staged.push (o := Memory.emptyOp (g.typeOf result)) ⟨rfl,rfl⟩ nofun
      obtain ⟨w,d3,ran,ok⟩ := bindOk.mp ok
      obtain ⟨o',staged,offered⟩ := staged'.unpack (offered.mono _) (staged.last _ Nat.zero_lt_one)
        (expectOk.mp ran)
      exact ⟨_,staged.replace sight (fun u mem => mem_singleton.mp mem ▸ offered) ok⟩

theorem foldWithOk {producer name} (ok : foldWith s producer name (ofGraph g) = .ok () e) : ∃ inner v a,
      (g.op s.op).results ≠ [] ∧ (g.op s.op).operands[0]? = some v ∧ producer g v = .ok (some inner) ∧
      layoutOf (g.op s.op) = layoutOf (g.op inner) ∧ (g.op inner).operands[0]? = some (some a) ∧
      g.typeOf a = g.typeOf (.result s.op 0) ∧ replace s.op [some a] (ofGraph g) = .ok () e := by
  obtain ⟨_,rfl,ok⟩ := read graphOk ok
  obtain ⟨tensor,ok⟩ := Site.checkOk.mp ok
  obtain ⟨inner,asked,ok⟩ := read askOk ok
  obtain ⟨v,found,producing⟩ := bindOk.mp asked
  cases inner with
  | none => exact absurd ok declineOk
  | some inner =>
    obtain ⟨_,rfl,ok⟩ := read graphOk ok
    obtain ⟨layouts,ok⟩ := Site.checkOk.mp ok
    obtain ⟨x,source,ok⟩ := read askOk ok
    obtain ⟨_,⟨a,rfl,rfl⟩,ok⟩ := read typeOfOk ok
    obtain ⟨types,ok⟩ := Site.checkOk.mp ok
    exact ⟨inner,v,a,fun none => tensor (by rw [List.isEmpty_iff]; exact none),operandAtOk.mp found,
      producing,not_not.mp layouts,operandAtOk.mp source,not_not.mp types,ok⟩

theorem foldWithReady (sight : Sight g s.op V) {producer name}
    (produces : ∀ v j, producer g v = .ok (some j) → ∃ i, v = some (.result j i))
    (ok : foldWith s producer name (ofGraph g) = .ok () e) : Prepared g s.op V e := by
  obtain ⟨inner,v,a,-,found,producing,-,source,-,ok⟩ := foldWithOk ok
  obtain ⟨i,rfl⟩ := produces v inner producing
  have visible := sight.closed inner i (sight.operands _ (mem_of_getElem? found))
  refine ⟨none,(Staged.start g s.op V).replace sight (fun u mem => ?_) ok⟩
  rw [mem_singleton.mp mem]
  exact .inl (visible _ (mem_of_getElem? source))

theorem checkMapsOk {i ms} (ok : checkMaps s i ms d = .ok () e) :
    (∀ m ∈ ms, (∀ x ∈ m.results, ∃ p, x = .dim p) ∧ m.isMinorIdentity = .ok true) ∧ e = d := by
  induction ms generalizing i with
  | nil =>
    cases ok
    exact ⟨nofun,rfl⟩
  | cons m ms ih =>
    unfold checkMaps at ok
    generalize bare : find? _ m.results = other at ok
    cases other with
    | some x =>
      obtain ⟨_,_,ran,-⟩ := bindOk.mp ok
      exact absurd ran declineOk
    | none =>
      obtain ⟨minor,found,ok⟩ := read askOk ok
      obtain ⟨yes,ok⟩ := Site.checkOk.mp ok
      obtain ⟨rest,rfl⟩ := ih ok
      refine ⟨forall_mem_cons.mpr ⟨⟨fun x mem => ?_,?_⟩,rest⟩,rfl⟩
      · have bare := find?_eq_none.mp bare x mem
        cases x with
        | dim p => exact ⟨p,rfl⟩
        | _ => simp at bare
      · rw [found,not_not.mp yes]

theorem checkElementwiseOk (ok : checkElementwise s d = .ok () e) :
    ((∀ it ∈ iteratorTypes (d.graph.op s.op), it = .parallel) ∧
      ∀ m ∈ indexingMaps (d.graph.op s.op), (∀ x ∈ m.results, ∃ p,
      x = .dim p) ∧ m.isMinorIdentity = .ok true) ∧ e = d := by
  obtain ⟨_,rfl,ok⟩ := read graphOk ok
  dsimp only at ok
  generalize found : find? _ (iteratorTypes _) = other at ok
  cases other with
  | some it => exact absurd ok declineOk
  | none =>
    obtain ⟨maps,rfl⟩ := checkMapsOk ok
    exact ⟨⟨fun it mem => by simpa using find?_eq_none.mp found it mem,maps⟩,rfl⟩

theorem unpackedOperandOk {found i vs} {at_ : Nat × OpId} (ok : unpackedOperand s found i vs d = .ok at_ e) :
    (found = some at_ ∨ ∃ k j, vs[k]? = some (some (.result at_.2 j)) ∧ at_.1 = i + k ∧
      isUnpack (d.graph.op at_.2) = true) ∧ e = d := by
  induction vs generalizing found i with
  | nil =>
    cases found with
    | none => exact absurd ok declineOk
    | some f =>
      cases ok
      exact ⟨.inl rfl,rfl⟩
  | cons v vs ih =>
    replace ok := bindOk.mp ok
    obtain ⟨producer,_,ran,ok⟩ := ok
    obtain ⟨asked,rfl⟩ := askOk.mp ran
    cases producer with
    | none =>
      obtain ⟨origin,same⟩ := ih ok
      refine ⟨origin.imp_right fun ⟨k,j,here,index,kind⟩ => ?_,same⟩
      exact ⟨k + 1,j,here,by omega,kind⟩
    | some id =>
      obtain ⟨⟨j,rfl⟩,kind⟩ := unpackOfOk asked
      cases found with
      | some f => exact absurd ok declineOk
      | none =>
        obtain ⟨origin,same⟩ := ih ok
        refine ⟨.inr ?_,same⟩
        rcases origin with here | ⟨k,j',here,index,kind⟩
        · cases here
          exact ⟨0,j,rfl,rfl,kind⟩
        · exact ⟨k + 1,j',here,by omega,kind⟩

structure Tiled.Matches (g : Graph) (l : LoopLayout) (t : Tiled) : Prop where
  value : ∃ a, t.value = some a ∧ t.type = g.typeOf a
  layout : t.layout = l.operandLayout (Int64.ofNat t.type.rank)
  valid : t.layout.validate (Int64.ofNat t.type.rank) = .ok ()
  divides : t.layout.divides t.type.dims = .ok true

theorem tileOperandsOk {l i} {vs : List Operand} {ts : List Tiled} (ok : tileOperands s l i vs d = .ok ts e) :
    ts.map Tiled.value = vs ∧ ts.map Tiled.index = range' i vs.length ∧
      (∀ t ∈ ts, t.Matches d.graph l) ∧ e = d := by
  induction vs generalizing i ts e with
  | nil =>
    cases ok
    exact ⟨rfl,rfl,nofun,rfl⟩
  | cons v vs ih =>
    obtain ⟨_,⟨a,rfl,rfl⟩,ok⟩ := read typeOfOk ok
    obtain ⟨_,valid,ok⟩ := read attemptOk ok
    obtain ⟨divides,divided,ok⟩ := read askOk ok
    obtain ⟨yes,ok⟩ := Site.checkOk.mp ok
    obtain ⟨rest,_,ran,last⟩ := bindOk.mp ok
    obtain ⟨values,indices,fits,rfl⟩ := ih ran
    cases last
    refine ⟨by rw [map_cons,values],by rw [map_cons,indices]; rfl,forall_mem_cons.mpr ⟨?_,fits⟩,rfl⟩
    exact ⟨⟨a,rfl,rfl⟩,rfl,valid,by rw [divided,not_not.mp yes]⟩

theorem operandSeen {id u target ops} (sight : Sight g id V) (staged : Staged g id V target ops d)
    (within : u < g.ops.size) {j} (mem : some (.result u j) ∈ (g.op id).operands) {i v}
    (ok : d.graph.operandAt u i = .ok v) : Offers g V ops v := by
  have at_ := operandAtOk.mp ok
  rw [staged.old within] at at_
  exact .inl (sight.closed u j (sight.operands _ mem) v (mem_of_getElem? at_))

section Elementwise

variable {u : OpId} {index j : Nat} (sight : Sight g s.op V) (within : u < g.ops.size)
  (mem : some (.result u j) ∈ (g.op s.op).operands)

include sight within mem

theorem blockOperandsStaged {target ops} (staged : Staged g s.op V target ops d) {ts}
    (values : ∀ t ∈ ts, t.value ∈ (g.op s.op).operands) {vs} (ok : blockOperands s index u ts d = .ok vs e) :
    StagesMore g s.op V target ops e vs := by
  induction ts generalizing ops d vs with
  | nil =>
    cases ok
    exact stagesMoreNil staged
  | cons t ts ih =>
    obtain ⟨here,later⟩ := forall_mem_cons.mp values
    unfold blockOperands at ok
    dsimp only at ok
    split at ok
    · obtain ⟨v,found,ok⟩ := read askOk ok
      have offered := operandSeen sight staged within mem found
      exact stagesMoreCons [] (by simpa using offered) (ih (by simpa using staged) later) ok
    · split at ok
      · exact stagesMoreCons [] (.inl (sight.operands _ here)) (ih (by simpa using staged) later) ok
      · obtain ⟨v,d1,ran,ok⟩ := bindOk.mp ok
        obtain ⟨more,staged,offered⟩ := staged.pack (.inl (sight.operands _ here)) (expectOk.mp ran)
        exact stagesMoreCons more offered (ih staged later) ok

theorem unpackResultsStaged {target} {ops : List Operation} (staged : Staged g s.op V target ops d) {outs}
    (values : ∀ t ∈ outs, t.value ∈ (g.op s.op).operands) {m} (new : m < ops.length) {rs vs}
    (ok : unpackResults s (g.ops.size + m) index u outs rs d = .ok vs e) :
    StagesMore g s.op V target ops e vs := by
  induction rs generalizing ops d vs with
  | nil =>
    cases ok
    exact stagesMoreNil staged
  | cons r rs ih =>
    obtain ⟨t,out,ok⟩ := read requireOk ok
    have here := values t (mem_of_getElem? out)
    obtain ⟨result,found,ok⟩ := read askOk ok
    have offered : Offers g V ops (some result) := by
      obtain ⟨lt,rfl⟩ := resultAtOk.mp found
      rw [staged.graph,g.pushAllNew _ (getElem?_eq_getElem new)] at lt
      exact .inr ⟨m,_,r,getElem?_eq_getElem new,lt,rfl⟩
    have unpacks {dest : Operand} (seen : Offers g V ops dest) (ok : (do
          let v ← s.expect (unpack (some result) dest t.layout .dropped)
          let vs ← unpackResults s (g.ops.size + m) index u outs rs
          pure (v :: vs)) d = .ok vs e) : StagesMore g s.op V target ops e vs := by
      obtain ⟨v,d1,ran,ok⟩ := bindOk.mp ok
      obtain ⟨o,staged,offered⟩ := staged.unpack offered seen (expectOk.mp ran)
      exact stagesMoreCons [o] offered (ih staged (by simp; omega)) ok
    dsimp only at ok
    split at ok
    · exact stagesMoreCons [] (by simpa using offered) (ih (by simpa using staged) (by simpa using new)) ok
    · split at ok
      · obtain ⟨dest,found,ok⟩ := read askOk ok
        exact unpacks (operandSeen sight staged within mem found) ok
      · exact unpacks (.inl (sight.operands _ here)) ok

end Elementwise

theorem throughElementwiseReady (sight : Sight g s.op V)
    (ok : throughElementwise.draft s (ofGraph g) = .ok () e) : Prepared g s.op V e := by
  obtain ⟨_,-,ok⟩ := pass checkElementwiseOk ok
  obtain ⟨_,rfl,ok⟩ := read graphOk ok
  obtain ⟨⟨index,u⟩,none | ⟨k,j,at_,-,kind⟩,ok⟩ := pass unpackedOperandOk ok
  · cases none
  have mem := mem_of_getElem? at_
  have within := unpackInside kind
  obtain ⟨_,-,ok⟩ := read askOk ok
  obtain ⟨-,ok⟩ := Site.checkOk.mp ok
  obtain ⟨_,rfl,ok⟩ := read graphOk ok
  obtain ⟨_,-,ok⟩ := read nthOk ok
  obtain ⟨_,-,ok⟩ := read typeOfOk ok
  obtain ⟨_,-,ok⟩ := read attemptOk ok
  obtain ⟨tiled,_,ran,ok⟩ := bindOk.mp ok
  obtain ⟨values,-,-,rfl⟩ := tileOperandsOk ran
  have values : ∀ t ∈ tiled, t.value ∈ (g.op s.op).operands := fun t inside => by
    change tiled.map Tiled.value = (g.op s.op).operands at values
    exact values ▸ mem_map_of_mem inside
  obtain ⟨blocked,d1,ran,ok⟩ := bindOk.mp ok
  obtain ⟨more,staged,offered⟩ := blockOperandsStaged sight within mem (Staged.start g s.op V) values ran
  rw [nil_append] at staged offered
  obtain ⟨n,-,ok⟩ := read askOk ok
  obtain ⟨new,d2,made,ok⟩ := bindOk.mp ok
  obtain ⟨_,d3,listed,ok⟩ := bindOk.mp ok
  rw [← take_append_drop n blocked] at offered
  obtain ⟨o,rfl,staged⟩ := staged.structured offered made listed
  obtain ⟨_,d4,moved,ok⟩ := bindOk.mp ok
  have last : more.length < (more ++ [o]).length := by simp
  have staged := staged.moveRegion rfl ⟨more.length,last,rfl⟩ moved
  obtain ⟨results,d5,ran,ok⟩ := bindOk.mp ok
  obtain ⟨more',staged,offered⟩ := unpackResultsStaged sight within mem staged
    (fun t inside => values t (mem_of_mem_drop inside)) last ran
  exact ⟨_,staged.replace sight offered ok⟩

end Propagation

namespace Body

variable {id : OpId} {b : BlockId} {v x zero : Operand}

theorem reluPairOk (ok : reluPair g id b x zero = .ok (some v)) :
    ∃ j, x = some (.argument b j) ∧ (g.op id).operands[j]? = some v ∧ isZeroOperand g id b zero = .ok true := by
  unfold reluPair at ok
  cases x with
  | none => cases ok
  | some w =>
    cases found : operandOfArgument (g.op id) b w with
    | none =>
      simp only [found] at ok
      cases ok
    | some operand =>
      simp only [found] at ok
      obtain ⟨isZero,known,ok⟩ := bindOk.mp ok
      cases isZero with
      | false => cases ok
      | true =>
        cases ok
        cases w with
        | result => cases found
        | argument b' j =>
          simp only [operandOfArgument] at found
          split at found
          · rename_i here
            exact ⟨j,by rw [here],found,known⟩
          · cases found

theorem reluSourceOk (region : (g.op id).region = some b) (ok : reluSource? g id = .ok (some v)) :
    ∃ last max i lhs rhs, g.terminator? b = some last ∧ (g.op last).operands = [some (.result max i)] ∧
      (g.op max).kind = Arith.maxKind ∧ (g.op max).block = some b ∧ (g.op max).operands[0]? = some lhs ∧
      (g.op max).operands[1]? = some rhs ∧ (reluPair g id b lhs rhs = .ok (some v) ∨
      reluPair g id b rhs lhs = .ok (some v)) := by
  simp only [reluSource?,region] at ok
  split at ok
  · cases ok
  · split at ok
    · rename_i yielded known
      obtain ⟨last,ends,yields⟩ := Option.map_eq_some_iff.mp known
      obtain ⟨defined,found,rest⟩ := bindOk.mp ok
      cases defined with
      | none => cases rest
      | some max =>
        dsimp only at rest
        split at rest
        · cases rest
        · rename_i other
          obtain ⟨kind,inside⟩ := not_or.mp other
          obtain ⟨lhs,first,rest⟩ := bindOk.mp rest
          obtain ⟨rhs,second,rest⟩ := bindOk.mp rest
          obtain ⟨pair,paired,rest⟩ := bindOk.mp rest
          obtain ⟨i,rfl⟩ := Propagation.definingOpOk found
          refine ⟨last,max,i,lhs,rhs,ends,yields,not_not.mp kind,not_not.mp inside,operandAtOk.mp first,
            operandAtOk.mp second,?_⟩
          cases pair with
          | some w =>
            cases rest
            exact .inl paired
          | none => exact .inr rest
    · cases ok

end Body

namespace ToPrimitive

open Blocking

theorem checkBuffersOk (ok : checkBuffers s d = .ok () e) :
    (hasBufferSemantics d.graph (d.graph.op s.op) = .ok true ∧
      hasStaticShape d.graph (d.graph.op s.op) = .ok true) ∧ e = d := by
  obtain ⟨_,buffers,ok⟩ := read askOk ok
  obtain ⟨areBuffers,ok⟩ := Site.checkOk.mp ok
  obtain ⟨_,static,ok⟩ := read askOk ok
  obtain ⟨areStatic,rfl⟩ := Site.guardOk.mp ok
  rw [not_not] at areBuffers areStatic
  exact ⟨⟨areBuffers ▸ buffers,areStatic ▸ static⟩,rfl⟩

theorem checkMapsOk {n i ms} (ok : checkMaps s n i ms d = .ok () e) :
    (∀ j m, ms[j]? = some m → if i + Int64.ofNat j < n then m.isMinorIdentity = .ok true else m.isIdentity = .ok true) ∧
      e = d := by
  induction ms generalizing i with
  | nil =>
    cases ok
    exact ⟨nofun,rfl⟩
  | cons m ms ih =>
    have start : i + Int64.ofNat 0 = i := Int64.add_zero i
    unfold checkMaps at ok
    dsimp only at ok
    split at ok <;>
    · rename_i place
      obtain ⟨_,found,ok⟩ := read askOk ok
      obtain ⟨holds,ok⟩ := Site.checkOk.mp ok
      obtain ⟨later,rfl⟩ := ih ok
      refine ⟨fun j m' at_ => ?_,rfl⟩
      cases j with
      | zero =>
        cases at_
        rw [start]
        simp only [place,if_true,if_false]
        exact not_not.mp holds ▸ found
      | succ j =>
        have next : i + Int64.ofNat (j + 1) = i + 1 + Int64.ofNat j := by
          rw [Nat.add_comm j 1,Int64.ofNat_add,← Int64.add_assoc]
          rfl
        rw [next]
        exact later j m' at_

theorem checkElementwiseMapsOk (ok : checkElementwiseMaps s d = .ok () e) :
    (∀ j m, (indexingMaps (d.graph.op s.op))[j]? = some m →
      if Int64.ofNat j < numInputs (d.graph.op s.op) then m.isMinorIdentity = .ok true
      else m.isIdentity = .ok true) ∧ e = d := by
  obtain ⟨_,rfl,ok⟩ := read graphOk ok
  obtain ⟨-,ok⟩ := Site.checkOk.mp ok
  simpa only [Int64.zero_add] using checkMapsOk ok

theorem replaceAllOk {kind} (ok : replaceAll s kind (ofGraph g) = .ok () e) :
    ∃ ins outs out, Structured.inputs (g.op s.op) = .ok ins ∧ Structured.outputs (g.op s.op) = .ok outs ∧
      outs[0]? = some out ∧ replace s kind ins out (ofGraph g) = .ok () e := by
  obtain ⟨⟨ins,outs⟩,⟨inputs,outputs⟩,ok⟩ := Step.read operandsAtOk ok
  obtain ⟨out,first,ok⟩ := Step.read nthOk ok
  exact ⟨ins,outs,out,inputs,outputs,first,ok⟩

theorem reluSourceMem {id v} (ok : Body.reluSource? g id = .ok (some v)) : v ∈ (g.op id).operands := by
  cases region : (g.op id).region with
  | none =>
    simp only [Body.reluSource?,region] at ok
    cases ok
  | some b =>
    obtain ⟨_,_,_,_,_,-,-,-,-,-,-,paired⟩ := Body.reluSourceOk region ok
    rcases paired with pair | pair <;>
    · obtain ⟨_,-,found,-⟩ := Body.reluPairOk pair
      exact mem_of_getElem? found

section Ready

variable (sight : Sight g s.op V)

include sight

theorem replaceReady {kind ins out} (seen : ∀ v ∈ ins ++ [out], V v)
    (ok : replace s kind ins out (ofGraph g) = .ok () e) : Prepared g s.op V e := by
  obtain ⟨new,d1,made,ok⟩ := bindOk.mp ok
  obtain ⟨rfl,results,rfl⟩ := primitiveMake made
  obtain ⟨_,rfl,ok⟩ := read graphOk ok
  obtain ⟨_,-,ok⟩ := read attemptOk ok
  exact ⟨none,(Staged.start g s.op V).replaceWithNew sight ⟨rfl,rfl⟩ (fun v mem => .inl (seen v mem)) ok⟩

theorem replaceAllReady {kind} (ok : replaceAll s kind (ofGraph g) = .ok () e) : Prepared g s.op V e := by
  obtain ⟨ins,outs,out,inputs,outputs,first,ok⟩ := replaceAllOk ok
  obtain ⟨left,right⟩ := operandsMem inputs outputs
  refine replaceReady sight (fun v mem => sight.operands v ?_) ok
  rcases mem_append.mp mem with input | output
  · exact left v input
  · exact right v (mem_singleton.mp output ▸ mem_of_getElem? first)

theorem namedReady {kind}
    (ok : (do checkBuffers s; replaceAll s kind) (ofGraph g) = .ok () e) : Prepared g s.op V e := by
  obtain ⟨_,-,ok⟩ := pass checkBuffersOk ok
  exact replaceAllReady sight ok

theorem genericMatmulReady (ok : genericMatmul.draft s (ofGraph g) = .ok () e) : Prepared g s.op V e := by
  obtain ⟨_,ok⟩ := skip checkMarkReads ok
  obtain ⟨_,-,ok⟩ := pass checkBuffersOk ok
  obtain ⟨_,-,ok⟩ := Step.pass checkMatmulBodyOk ok
  obtain ⟨⟨a,b,c⟩,_,ran,ok⟩ := bindOk.mp ok
  have mem := matmulOperandsMem ran
  obtain ⟨-,rfl⟩ := matmulOperandsOk ran
  exact replaceReady sight (fun v inside => sight.operands v (mem v inside)) ok

theorem recognisedReady {f : Graph → Outcome Bool} {reason kind : String} (ok : (do
      if ¬ (← ask f) then s.decline reason
      checkBuffers s
      checkElementwiseMaps s
      replaceAll s kind) (ofGraph g) = .ok () e) : Prepared g s.op V e := by
  obtain ⟨_,-,ok⟩ := read askOk ok
  obtain ⟨-,ok⟩ := Site.checkOk.mp ok
  obtain ⟨_,-,ok⟩ := pass checkBuffersOk ok
  obtain ⟨_,-,ok⟩ := pass checkElementwiseMapsOk ok
  exact replaceAllReady sight ok

theorem reluReady (ok : relu.draft s (ofGraph g) = .ok () e) : Prepared g s.op V e := by
  obtain ⟨source,found,ok⟩ := Step.read askOk ok
  cases source with
  | none => exact absurd ok declineOk
  | some source =>
    obtain ⟨⟨ins,outs⟩,⟨inputs,outputs⟩,ok⟩ := Step.read operandsAtOk ok
    obtain ⟨-,right⟩ := operandsMem inputs outputs
    match outs, ok with
    | [out], ok =>
      obtain ⟨-,ok⟩ := Site.checkOk.mp ok
      obtain ⟨_,-,ok⟩ := Step.pass checkBuffersOk ok
      obtain ⟨_,-,ok⟩ := Step.pass checkElementwiseMapsOk ok
      refine replaceReady sight (fun v mem => sight.operands v ?_) ok
      simp only [cons_append,nil_append,mem_cons,not_mem_nil,or_false] at mem
      rcases mem with rfl | rfl
      · exact reluSourceMem found
      · exact right _ (mem_singleton.mpr rfl)
    | [], ok | _ :: _ :: _, ok => exact absurd ok declineOk

end Ready

theorem rulesReady {r : Rule} (mem : r ∈ rules) (sight : Sight g s.op V)
    (ok : r.draft s (ofGraph g) = .ok () e) : Prepared g s.op V e := by
  simp only [rules,mem_cons,not_mem_nil,or_false] at mem
  rcases mem with rfl | rfl | rfl | rfl | rfl | rfl | rfl
  · exact namedReady sight ok
  · exact genericMatmulReady sight ok
  · exact namedReady sight ok
  · exact namedReady sight ok
  · exact recognisedReady sight ok
  · exact reluReady sight ok
  · exact recognisedReady sight ok

end ToPrimitive

namespace ToKernel

open Blocking

theorem checkOutputReads {out name} (ok : checkOutput s out d = .ok name e) : e = d := by
  obtain ⟨-,ok⟩ := Site.checkOk.mp ok
  obtain ⟨-,ok⟩ := Site.checkOk.mp ok
  obtain ⟨-,ok⟩ := Site.checkOk.mp ok
  exact (attemptOk.mp ok).2.symm

theorem checkReads {op out name} (ok : check s d = .ok (op, out, name) e) : op = d.graph.op s.op ∧ e = d := by
  obtain ⟨_,rfl,ok⟩ := read graphOk ok
  obtain ⟨_,-,ok⟩ := read attemptOk ok
  obtain ⟨_,-,ok⟩ := read askOk ok
  obtain ⟨_,-,ok⟩ := read typeOfOk ok
  obtain ⟨_,ok⟩ := skip checkOutputReads ok
  cases ok
  exact ⟨rfl,rfl⟩

theorem check2DReads {out mn} (ok : check2D s out d = .ok mn e) : e = d := by
  unfold check2D at ok
  generalize out.dims = dims at ok
  match dims, ok with
  | [_, _], ok => cases ok; rfl
  | [], ok | [_], ok | _ :: _ :: _ :: _, ok => exact absurd ok declineOk

def dispatchOp (kind function : String) (inputs : Option (List Int64)) (flags dataType : String) : Operation :=
  ⟨kind,[],[.ofType (.scalar .i64)],Attributes.ofList
    [(kindAttr, .text function), (inputsAttr, .ints inputs), (flagsAttr, .text flags),
     (dataTypeAttr, .text dataType)],none,none⟩

theorem dispatchRun (kind function : String) (inputs : Option (List Int64)) (flags dataType : String) :
    dispatch kind function inputs flags dataType d =
      .ok (.result d.graph.ops.size 0) (d.push (dispatchOp kind function inputs flags dataType)) := rfl

theorem extentReads {t axis x} (ok : extent t axis d = .ok x e) : e = d :=
  (requireOk.mp ok).2.symm

theorem bothMem {vs : List Operand} {x y : Operand} (atX : vs[0]? = some x) (atY : vs[1]? = some y) :
    ∀ v ∈ [x, y], v ∈ vs := by
  simpa using ⟨mem_of_getElem? atX,mem_of_getElem? atY⟩

theorem classifyInputsReads {out i flags vs found} (ok : classifyInputs s out i flags vs d = .ok found e) : e = d := by
  induction vs generalizing i flags found e with
  | nil => cases ok; rfl
  | cons v vs ih =>
    obtain ⟨_,-,ok⟩ := read typeOfOk ok
    obtain ⟨⟨ld,kind⟩,-,ok⟩ := read askOk ok
    have next {flags : String} (ok : (do
        let rest ← classifyInputs s out (i + 1) flags vs
        pure (ld :: rest.1, rest.2)) d = .ok found e) : e = d := by
      obtain ⟨rest,_,ran,last⟩ := bindOk.mp ok
      cases ih ran
      cases last
      rfl
    dsimp only at ok
    split at ok
    · exact next ok
    · split at ok
      · obtain ⟨_,_,ran,-⟩ := bindOk.mp ok
        exact absurd ran declineOk
      · exact next ok

section Ready

variable (sight : Sight g s.op V)

include sight

theorem invokeReady {dispatchKind kind function flags dataType inputs buffers batch handle}
    (dispatched : dispatch dispatchKind function inputs flags dataType (ofGraph g) = .ok handle d)
    (seen : ∀ v ∈ buffers, v ∈ (g.op s.op).operands) (ok : invoke s kind function handle buffers batch d = .ok () e) :
    Prepared g s.op V e := by
  rw [dispatchRun] at dispatched
  cases dispatched
  have start := Staged.start g s.op V
  have staged := start.push (o := dispatchOp dispatchKind function inputs flags dataType) ⟨rfl,rfl⟩ nofun
  obtain ⟨new,d2,made,ok⟩ := bindOk.mp ok
  unfold makeInvoke at made
  rw [makeRun] at made
  cases made
  refine ⟨none,staged.replaceWithNew sight ⟨rfl,rfl⟩ (forall_mem_cons.mpr ⟨?_,fun v mem => ?_⟩) ok⟩
  · exact start.last _ Nat.zero_lt_one
  · exact .inl (sight.operands v (seen v mem))

theorem contractionReady {function flags axis batched}
    (ok : contraction s function flags axis batched (ofGraph g) = .ok () e) : Prepared g s.op V e := by
  obtain ⟨⟨op,out,name⟩,rfl,ok⟩ := pass checkReads ok
  obtain ⟨_,-,ok⟩ := read nthOk ok
  obtain ⟨left,-,ok⟩ := read typeOfOk ok
  have rest {batch : Option Int64} (ok : (do
      let m ← extent out 0
      let n ← extent out 1
      let k ← extent left axis
      let handle ← dispatch ternaryDispatchKind function (some [m, n, k, m, k, m]) flags name
      invoke s ternaryKind function handle (g.op s.op).operands batch) (ofGraph g) = .ok () e) :
      Prepared g s.op V e := by
    obtain ⟨m,ok⟩ := skip extentReads ok
    obtain ⟨n,ok⟩ := skip extentReads ok
    obtain ⟨k,ok⟩ := skip extentReads ok
    obtain ⟨handle,d1,dispatched,ok⟩ := bindOk.mp ok
    exact invokeReady sight dispatched (fun _ mem => mem) ok
  cases batched with
  | false => exact rest ok
  | true =>
    obtain ⟨batch,ok⟩ := skip extentReads ok
    exact rest ok

theorem identityReady (ok : identity.draft s (ofGraph g) = .ok () e) : Prepared g s.op V e := by
  obtain ⟨⟨op,out,name⟩,rfl,ok⟩ := pass checkReads ok
  obtain ⟨⟨m,n⟩,ok⟩ := skip check2DReads ok
  obtain ⟨x,atX,ok⟩ := read nthOk ok
  obtain ⟨y,atY,ok⟩ := read nthOk ok
  obtain ⟨_,-,ok⟩ := read typeOfOk ok
  obtain ⟨⟨ldi,kind⟩,-,ok⟩ := read askOk ok
  obtain ⟨handle,d1,dispatched,ok⟩ := bindOk.mp ok
  exact invokeReady sight dispatched (bothMem atX atY) ok

theorem reluReady (ok : relu.draft s (ofGraph g) = .ok () e) : Prepared g s.op V e := by
  obtain ⟨⟨op,out,name⟩,rfl,ok⟩ := pass checkReads ok
  obtain ⟨⟨m,n⟩,ok⟩ := skip check2DReads ok
  obtain ⟨handle,d1,dispatched,ok⟩ := bindOk.mp ok
  obtain ⟨x,atX,ok⟩ := read nthOk ok
  obtain ⟨y,atY,ok⟩ := read nthOk ok
  exact invokeReady sight dispatched (bothMem atX atY) ok

theorem addReady (ok : add.draft s (ofGraph g) = .ok () e) : Prepared g s.op V e := by
  obtain ⟨⟨op,out,name⟩,rfl,ok⟩ := pass checkReads ok
  obtain ⟨⟨m,n⟩,ok⟩ := skip check2DReads ok
  obtain ⟨ins,-,ok⟩ := read askOk ok
  obtain ⟨⟨lds,flags⟩,ok⟩ := skip classifyInputsReads ok
  match lds, ok with
  | [ld0, ld1], ok =>
    obtain ⟨handle,d1,dispatched,ok⟩ := bindOk.mp ok
    exact invokeReady sight dispatched (fun _ mem => mem) ok
  | [], ok | [_], ok | _ :: _ :: _ :: _, ok => cases ok

end Ready

theorem rulesReady {r : Rule} (mem : r ∈ rules) (sight : Sight g s.op V)
    (ok : r.draft s (ofGraph g) = .ok () e) : Prepared g s.op V e := by
  simp only [rules,mem_cons,not_mem_nil,or_false] at mem
  rcases mem with rfl | rfl | rfl | rfl | rfl | rfl
  · exact contractionReady sight ok
  · exact contractionReady sight ok
  · exact contractionReady sight ok
  · exact identityReady sight ok
  · exact reluReady sight ok
  · exact addReady sight ok

end ToKernel

namespace Catalogue

def Listed (r : Rule) : Prop := ∃ tiles, r ∈ tiled tiles ++ untiled

theorem ready {r : Rule} (listed : Listed r) (sight : Sight g s.op V) (ok : r.draft s (ofGraph g) = .ok () e) :
    Prepared g s.op V e := by
  obtain ⟨tiles,mem⟩ := listed
  simp only [tiled,untiled,mem_append,mem_cons,not_mem_nil,or_false] at mem
  rcases mem with (rfl | rfl | rfl | rfl) | ((rfl | rfl | rfl | rfl | rfl) | primitive) | kernel
  · exact Blocking.matmulReady sight ok
  · exact Blocking.blockConvReady sight ok
  · exact Blocking.blockConvReady sight ok
  · exact Blocking.vnniMatmulReady sight ok
  · exact Blocking.degeneralizeMatmulReady sight ok
  · exact Propagation.throughPadReady sight ok
  · exact Propagation.throughElementwiseReady sight ok
  · exact Propagation.foldWithReady sight (fun v j found => (Propagation.unpackOfOk found).1) ok
  · exact Propagation.foldWithReady sight (fun v j found => (Propagation.packOfOk found).1) ok
  · exact ToPrimitive.rulesReady primitive sight ok
  · exact ToKernel.rulesReady kernel sight ok

end Catalogue

end TileLower

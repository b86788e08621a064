import TileLower.Proofs.Staging

/-!
The makers of operations on a staged draft: what they push uses only what was offered to them, and the value that
they give back is offered from then on.
-/
namespace TileLower

open TileLower.Graph Step List

namespace Drafting

variable {d e : Draft}

theorem makeRun (kind : String) (operands : List Operand) (results : List ValueType) (attrs : Attributes) :
    make kind operands results attrs none d = .ok d.graph.ops.size
      { d with graph := d.graph.push ⟨kind,operands,results.map Slot.ofType,attrs,none,none⟩ } := rfl

theorem typesOfOk {vs ts} : typesOf vs d = .ok ts e ↔ d.graph.operandTypes vs = .ok ts ∧ d = e := by
  induction vs generalizing ts e with
  | nil => simp [typesOf,operandTypes]
  | cons v vs ih =>
    cases v with
    | none => simp [typesOf,typeOf,operandTypes,operandType,bindOk,Outcome.bindOk]
    | some v =>
      rw [typesOf,bindOfOk (typeOfRun v),bindOk,operandTypes,operandType,Outcome.bindOfOk,
        Outcome.bindOk]
      constructor
      · rintro ⟨ts,_,ran,ok⟩
        obtain ⟨types,rfl⟩ := ih.mp ran
        cases ok
        exact ⟨⟨ts,types,rfl⟩,rfl⟩
      · rintro ⟨⟨ts,types,ok⟩,rfl⟩
        cases ok
        exact ⟨ts,d,ih.mpr ⟨types,rfl⟩,rfl⟩

end Drafting

theorem Graph.resultAtOk {g : Graph} {id i v} :
    g.resultAt id i = .ok v ↔ i < (g.op id).results.length ∧ v = .result id i := by
  unfold Graph.resultAt
  split
  · rename_i lt
    simp [lt,eq_comm]
  · rename_i not
    simp [not]

theorem Graph.operandAtOk {g : Graph} {id i v} :
    g.operandAt id i = .ok v ↔ (g.op id).operands[i]? = some v := Outcome.ofOptionOk

def Structured.madeOp (kind : String) (ins outs : List Operand) (outTypes : List ValueType) (attrs : Attributes) :
    Operation :=
  ⟨kind,ins ++ outs,(outTypes.filter ValueType.isTensor).map Slot.ofType,
    attrs.store numInputsAttr (.int (Int64.ofNat ins.length)),none,none⟩

theorem Structured.makeOk {kind ins outs attrs} {d e : Draft} {id}
    (ok : Structured.make kind ins outs attrs none d = .ok id e) : ∃ outTypes, d.graph.operandTypes outs = .ok outTypes ∧
      id = d.graph.ops.size ∧ e = { d with graph := d.graph.push (madeOp kind ins outs outTypes attrs) } := by
  obtain ⟨outTypes,types,ok⟩ := Step.read Drafting.typesOfOk ok
  cases ok
  exact ⟨outTypes,types,rfl,rfl⟩

section Bodies

variable {d e : Draft}

theorem Graph.operandTypesLength {g : Graph} {vs : List Operand} {ts : List ValueType}
    (ok : g.operandTypes vs = .ok ts) : ts.length = vs.length := by
  induction vs generalizing ts with
  | nil => cases ok; rfl
  | cons v vs ih =>
    obtain ⟨t,-,rest⟩ := Outcome.bindOk.mp ok
    obtain ⟨us,types,same⟩ := Outcome.bindOk.mp rest
    cases same
    rw [length_cons,length_cons,ih types]

theorem Drafting.makeRegionRun (kind : String) (operands : List Operand) (results : List ValueType)
    (attrs : Attributes) (r : BlockId) : Drafting.make kind operands results attrs (some r) d = .ok d.graph.ops.size
      { d with graph := (d.graph.push ⟨kind,operands,results.map Slot.ofType,attrs,some r,none⟩).setOwner r
                 d.graph.ops.size } := rfl

namespace Arith

def mulOp (x y : Operand) (t : ValueType) : Operation :=
  ⟨if isInteger t.element then mulIntKind else mulFloatKind,[x, y],[.ofType t],OrderedMap.empty,none,none⟩

def addOp (x y : Operand) (t : ValueType) : Operation :=
  ⟨if isInteger t.element then addIntKind else addFloatKind,[x, y],[.ofType t],OrderedMap.empty,none,none⟩

end Arith

namespace Structured

def mulAddOps (r : BlockId) (n : OpId) (product sum : ValueType) : List Operation :=
  [Arith.mulOp (some (.argument r 0)) (some (.argument r 1)) product,
   Arith.addOp (some (.argument r 2)) (some (.result n 0)) sum,
   ⟨yieldKind,[some (.result (n + 1) 0)],[],OrderedMap.empty,none,none⟩]

theorem mulAddRun (r : BlockId) :
    (do let y ← mulAdd [.argument r 0, .argument r 1, .argument r 2]; let _ ← yield y; pure r) d = .ok r { d with
        graph := d.graph.pushAll
          (mulAddOps r d.graph.ops.size (d.graph.typeOf (.argument r 0)) (d.graph.typeOf (.argument r 2)))
        created := d.created ++ [d.graph.ops.size, d.graph.ops.size + 1, d.graph.ops.size + 2] } := by
  let m := Arith.mulOp (some (.argument r 0)) (some (.argument r 1)) (d.graph.typeOf (.argument r 0))
  let a := Arith.addOp (some (.argument r 2)) (some (.result d.graph.ops.size 0)) (d.graph.typeOf (.argument r 2))
  let y (n : OpId) : Operation := ⟨yieldKind,[some (.result n 0)],[],OrderedMap.empty,none,none⟩
  have ran : (do let y ← mulAdd [.argument r 0, .argument r 1, .argument r 2]; let _ ← yield y; pure r) d =
      .ok r (((d.push m).push a).push (y (d.push m).graph.ops.size)) := rfl
  have graph : ((d.graph.push m).push a).push (y (d.graph.ops.size + 1)) =
      d.graph.pushAll [m, a, y (d.graph.ops.size + 1)] := by
    have one : d.graph.push m = d.graph.pushAll [m] := by
      have none := pushAllPush d.graph [] m
      rwa [pushAllNil] at none
    rw [one,pushAllPush,pushAllPush]
    rfl
  have size : (d.push m).graph.ops.size = d.graph.ops.size + 1 := d.graph.pushSize m
  rw [ran,size]
  simp only [Draft.push,graph,pushSize,append_assoc]
  rfl

def opened (g : Graph) (types : List ValueType) : Graph :=
  { g with blocks := g.blocks.push ⟨(types.map elementOf).map Slot.ofType,[],none⟩ }

def bodied (g : Graph) (ta tb tc : ValueType) : Graph :=
  ((opened g [ta, tb, tc]).pushAll (mulAddOps g.blocks.size g.ops.size (elementOf ta) (elementOf tc))).append
    g.blocks.size [g.ops.size, g.ops.size + 1, g.ops.size + 2]

def withMulAdd (g : Graph) (ta tb tc : ValueType) (o : Operation) : Graph :=
  ((bodied g ta tb tc).push { o with region := some g.blocks.size }).setOwner g.blocks.size (g.ops.size + 3)

section Opened

variable (g : Graph) (types : List ValueType)

@[simp] theorem openedOps : (opened g types).ops = g.ops := rfl

@[simp] theorem openedSize : (opened g types).blocks.size = g.blocks.size + 1 := by simp [opened]

theorem openedOld {c} (old : c < g.blocks.size) : (opened g types).block c = g.block c := by
  simp [opened,Graph.block,Array.getD,old,Nat.lt_succ_of_lt old,Array.getElem_push]

theorem openedNew : (opened g types).block g.blocks.size = ⟨(types.map elementOf).map Slot.ofType,[],none⟩ := by
  simp [opened,Graph.block,Array.getD]

end Opened

theorem newBodyRun {a b c ta tb tc} (types : d.graph.operandTypes [a, b, c] = .ok [ta, tb, tc]) :
    newBody [a, b] [c] mulAdd d = .ok d.graph.blocks.size { d with graph := bodied d.graph ta tb tc } := by
  let h := opened d.graph [ta, tb, tc]
  have opens : openBody [a, b] [c] d = .ok d.graph.blocks.size { d with graph := h } := by
    rw [openBody,cons_append,cons_append,nil_append,bindOfOk (Drafting.typesOfOk.mpr ⟨types,rfl⟩)]
    rfl
  have args : h.argumentsOf d.graph.blocks.size =
      [.argument d.graph.blocks.size 0, .argument d.graph.blocks.size 1, .argument d.graph.blocks.size 2] := by
    rw [argumentsOf,openedNew]
    rfl
  have first : h.typeOf (.argument d.graph.blocks.size 0) = elementOf ta := by
    simp only [Graph.typeOf,slot,h,openedNew]
    rfl
  have third : h.typeOf (.argument d.graph.blocks.size 2) = elementOf tc := by
    simp only [Graph.typeOf,slot,h,openedNew]
    rfl
  have ran := mulAddRun (d := ⟨h,[],d.replacements,d.moves,d.erased⟩) d.graph.blocks.size
  rw [← args] at ran
  have inside : Drafting.inBlock d.graph.blocks.size (do
      let yielded ← mulAdd ((← Drafting.graph).argumentsOf d.graph.blocks.size)
      let _ ← yield yielded
      pure d.graph.blocks.size) { d with graph := h } =
        .ok d.graph.blocks.size { d with graph := bodied d.graph ta tb tc } := by
    rw [Drafting.inBlock,bindOfOk Drafting.graphRun,ran,first,third]
    rfl
  exact (bindOfOk opens _).trans inside

theorem newBodyOk {a b c r} (ok : newBody [a, b] [c] mulAdd d = .ok r e) :
    ∃ ta tb tc, d.graph.operandTypes [a, b, c] = .ok [ta, tb, tc] ∧ r = d.graph.blocks.size ∧
      e = { d with graph := bodied d.graph ta tb tc } := by
  obtain ⟨r',d1,made,-⟩ := bindOk.mp ok
  obtain ⟨ts,_,ran,-⟩ := bindOk.mp made
  obtain ⟨types,-⟩ := Drafting.typesOfOk.mp ran
  obtain ⟨ta,tb,tc,rfl⟩ := length_eq_three.mp (operandTypesLength types)
  cases (newBodyRun types).symm.trans ok
  exact ⟨ta,tb,tc,types,rfl,rfl⟩

theorem bodiedSize (g : Graph) (ta tb tc : ValueType) : (bodied g ta tb tc).ops.size = g.ops.size + 3 := by
  simp [bodied,append,mulAddOps]

theorem makeWithRun (kind : String) (attrs : Attributes) (ins : List Operand) {outs ts} (r : BlockId)
    (types : d.graph.operandTypes outs = .ok ts) : make kind ins outs attrs (some r) d = .ok d.graph.ops.size
      { d with graph :=
          (d.graph.push { madeOp kind ins outs ts attrs with region := some r }).setOwner r d.graph.ops.size } := by
  rw [make,bindOfOk (Drafting.typesOfOk.mpr ⟨types,rfl⟩),Drafting.makeRegionRun]
  rfl

theorem contractionRun (kind : String) (attrs : Attributes) {a b c ta tb tc t}
    (types : d.graph.operandTypes [a, b, c] = .ok [ta, tb, tc])
    (out : (bodied d.graph ta tb tc).operandTypes [c] = .ok [t]) :
    contraction kind attrs a b c d = .ok (d.graph.ops.size + 3)
      { d with
        graph := withMulAdd d.graph ta tb tc (madeOp kind [a, b] [c] [t] attrs)
        created := d.created ++ [d.graph.ops.size + 3] } := by
  have made := makeWithRun (d := { d with graph := bodied d.graph ta tb tc }) kind attrs [a, b] d.graph.blocks.size out
  rw [bodiedSize] at made
  rw [contraction,bindOfOk (newBodyRun types),bindOfOk made]
  rfl

theorem contractionOk {kind attrs a b c k} (ok : contraction kind attrs a b c d = .ok k e) : ∃ ta tb tc outTypes,
      d.graph.operandTypes [a, b, c] = .ok [ta, tb, tc] ∧ k = d.graph.ops.size + 3 ∧
      e = { d with
        graph := withMulAdd d.graph ta tb tc (madeOp kind [a, b] [c] outTypes attrs)
        created := d.created ++ [d.graph.ops.size + 3] } := by
  obtain ⟨r,d1,bodied,ok⟩ := bindOk.mp ok
  obtain ⟨ta,tb,tc,types,rfl,rfl⟩ := newBodyOk bodied
  obtain ⟨k',d2,made,ok⟩ := bindOk.mp ok
  obtain ⟨outTypes,-,made⟩ := Step.read Drafting.typesOfOk made
  rw [Drafting.makeRegionRun,bodiedSize] at made
  cases made
  obtain ⟨_,_,listed,ok⟩ := bindOk.mp ok
  cases listed
  cases ok
  exact ⟨ta,tb,tc,outTypes,types,rfl,rfl⟩

end Structured
namespace Structured

section WithMulAdd

variable (g : Graph) (ta tb tc : ValueType) (o : Operation)

theorem bodiedOld {j} (old : j < g.ops.size) : (bodied g ta tb tc).op j = g.op j := by
  have new : j ∉ range' g.ops.size 3 := fun mem => absurd (mem_range'_1.mp mem).1 (Nat.not_le_of_lt old)
  rw [bodied,appendAt,if_neg fun h => new h.1]
  exact pushAllOld (opened g [ta, tb, tc]) _ old

theorem bodiedNew {m b} (at_ : (mulAddOps g.blocks.size g.ops.size (elementOf ta) (elementOf tc))[m]? = some b) :
    (bodied g ta tb tc).op (g.ops.size + m) = { b with block := some g.blocks.size } := by
  have lt : m < 3 := (List.getElem?_eq_some_iff.mp at_).1
  have new : g.ops.size + m ∈ range' g.ops.size 3 :=
    mem_range'_1.mpr ⟨Nat.le_add_right ..,Nat.add_lt_add_left lt _⟩
  have inside : g.ops.size + m < ((opened g [ta, tb, tc]).pushAll
      (mulAddOps g.blocks.size g.ops.size (elementOf ta) (elementOf tc))).ops.size := by
    simpa [mulAddOps] using lt
  have pushed := pushAllNew (opened g [ta, tb, tc]) _ at_
  rw [openedOps] at pushed
  rw [bodied,appendAt,if_pos ⟨new,inside⟩,pushed]

theorem bodiedBlock : (bodied g ta tb tc).block g.blocks.size =
    ⟨[elementOf ta, elementOf tb, elementOf tc].map Slot.ofType,[g.ops.size, g.ops.size + 1, g.ops.size + 2],none⟩ := by
  rw [bodied,appendBlock,pushAllBlock,openedNew,if_pos ⟨rfl,by simp⟩]
  rfl

theorem bodiedOldBlock {c} (old : c < g.blocks.size) : (bodied g ta tb tc).block c = g.block c := by
  rw [bodied,appendBlock,if_neg fun h => old.ne h.1,pushAllBlock,openedOld g _ old]

theorem withMulAddSize : (withMulAdd g ta tb tc o).ops.size = g.ops.size + 4 := by
  simp [withMulAdd,setOwner,bodiedSize]

theorem withMulAddBlocks : (withMulAdd g ta tb tc o).blocks.size = g.blocks.size + 1 := by
  simp [withMulAdd,setOwner,bodied,append]

theorem withMulAddInner {j} (inner : j < g.ops.size + 3) :
    (withMulAdd g ta tb tc o).op j = (bodied g ta tb tc).op j := by
  rw [withMulAdd,setOwner,modifyBlockOp,pushOp _ _ (by rwa [bodiedSize])]

theorem withMulAddNew {m b} (at_ : (mulAddOps g.blocks.size g.ops.size (elementOf ta) (elementOf tc))[m]? = some b) :
    (withMulAdd g ta tb tc o).op (g.ops.size + m) = { b with block := some g.blocks.size } := by
  have lt : m < 3 := (List.getElem?_eq_some_iff.mp at_).1
  rw [withMulAddInner _ _ _ _ _ (Nat.add_lt_add_left lt _),bodiedNew _ _ _ _ at_]

theorem withMulAddLast : (withMulAdd g ta tb tc o).op (g.ops.size + 3) = { o with region := some g.blocks.size } := by
  rw [withMulAdd,setOwner,modifyBlockOp,← bodiedSize g ta tb tc,pushNew]

theorem withMulAddBlock : (withMulAdd g ta tb tc o).block g.blocks.size =
    ⟨[elementOf ta, elementOf tb, elementOf tc].map Slot.ofType,[g.ops.size, g.ops.size + 1, g.ops.size + 2],
      some (g.ops.size + 3)⟩ := by
  rw [withMulAdd,setOwner,modifyBlockAt,pushBlock,bodiedBlock,
    if_pos ⟨rfl,by simp [bodied,append]⟩]

theorem withMulAddOldBlock {c} (old : c < g.blocks.size) : (withMulAdd g ta tb tc o).block c = g.block c := by
  rw [withMulAdd,setOwner,modifyBlockAt,if_neg fun h => old.ne h.1,pushBlock,
    bodiedOldBlock g ta tb tc old]

end WithMulAdd

end Structured

end Bodies

namespace Staged

variable {g : Graph} {id : OpId} {V : Operand → Prop} {target : Option OpId} {ops : List Operation} {d e : Draft}
  (staged : Staged g id V target ops d)

include staged

theorem list {o : Operation} (plain : o.region = none ∧ o.block = none) (operands : ∀ v ∈ o.operands, Offers g V ops v)
    (ok : Drafting.list d.graph.ops.size { d with graph := d.graph.push o } = .ok () e) :
    Staged g id V target (ops ++ [o]) e := by
  cases ok
  exact staged.push plain operands

theorem destination {t w} (ok : Relayout.destination t d = .ok w e) :
    ∃ o, Staged g id V target (ops ++ [o]) e ∧ Offers g V (ops ++ [o]) (some w) := by
  unfold Relayout.destination at ok
  split at ok
  · rw [Memory.emptyRun] at ok
    cases ok
    exact ⟨_,staged.push ⟨rfl,rfl⟩ nofun,staged.last (Memory.emptyOp t) Nat.zero_lt_one⟩
  · rw [Memory.allocRun] at ok
    cases ok
    exact ⟨_,staged.push ⟨rfl,rfl⟩ nofun,staged.last (Memory.allocOp t) Nat.zero_lt_one⟩

theorem emit {kind source dest w l b} (offered : Offers g V ops source) (offered' : Offers g V ops dest)
    (ok : Relayout.emit kind source dest l b d = .ok w e) :
    ∃ o, Staged g id V target (ops ++ [o]) e ∧ Offers g V (ops ++ [o]) w := by
  cases dest with
  | none => cases ok
  | some v =>
    rw [Relayout.emitRun] at ok
    cases ok
    have operands : ∀ u ∈ (Relayout.convertOp kind source (some v) (d.graph.typeOf v) l b).operands,
        Offers g V ops u := by
      intro u mem
      simp only [Relayout.convertOp,mem_cons,not_mem_nil,or_false] at mem
      rcases mem with rfl | rfl
      · exact offered
      · exact offered'
    refine ⟨_,staged.push ⟨rfl,rfl⟩ operands,?_⟩
    split
    · rename_i tensor
      exact staged.last _ (by simp [Relayout.convertOp,tensor])
    · exact offered'.mono _

theorem pack {v w l b} (offered : Offers g V ops v) (ok : Relayout.pack v l b d = .ok w e) :
    ∃ more, Staged g id V target (ops ++ more) e ∧ Offers g V (ops ++ more) w := by
  obtain ⟨_,-,ok⟩ := Step.read Drafting.typeOfOk ok
  obtain ⟨_,-,ok⟩ := Step.read Drafting.liftOk ok
  obtain ⟨dest,d1,ran,ok⟩ := bindOk.mp ok
  obtain ⟨o,staged,offered'⟩ := staged.destination ran
  obtain ⟨o',staged,result⟩ := staged.emit (offered.mono _) offered' ok
  refine ⟨[o, o'],?_,?_⟩
  · simpa using staged
  · simpa using result

theorem unpack {v dest w l b} (offered : Offers g V ops v) (offered' : Offers g V ops dest)
    (ok : Relayout.unpack v dest l b d = .ok w e) :
    ∃ o, Staged g id V target (ops ++ [o]) e ∧ Offers g V (ops ++ [o]) w := by
  obtain ⟨_,-,ok⟩ := Step.read Drafting.typeOfOk ok
  obtain ⟨divides,-,ok⟩ := Step.read Drafting.liftOk ok
  cases divides with
  | false => exact absurd ok (by simp [Relayout.doesNotDivide])
  | true =>
    obtain ⟨_,-,ok⟩ := Step.read Drafting.liftOk ok
    obtain ⟨_,-,ok⟩ := Step.read Drafting.typeOfOk ok
    obtain ⟨-,ok⟩ := (checkOk fun _ _ => Drafting.failOk).mp ok
    exact staged.emit offered offered' ok

theorem pad {source value low high w} (offered : Offers g V ops source) (offered' : Offers g V ops value)
    (ok : Memory.pad source value low high d = .ok w e) :
    ∃ o, Staged g id V target (ops ++ [o]) e ∧ Offers g V (ops ++ [o]) (some w) := by
  obtain ⟨k,d1,made,ok⟩ := bindOk.mp ok
  obtain ⟨_,-,made⟩ := Step.read Drafting.typeOfOk made
  obtain ⟨t,-,made⟩ := Step.read Drafting.liftOk made
  rw [Drafting.makeRun] at made
  cases made
  obtain ⟨_,_,listed,ok⟩ := bindOk.mp ok
  cases ok
  refine ⟨_,staged.list ⟨rfl,rfl⟩ (fun u mem => ?_) listed,staged.last _ Nat.zero_lt_one⟩
  simp only [mem_cons,not_mem_nil,or_false] at mem
  rcases mem with rfl | rfl
  · exact offered
  · exact offered'

theorem structured {kind ins outs attrs k d1} (offered : ∀ v ∈ ins ++ outs, Offers g V ops v)
    (ok : Structured.make kind ins outs attrs none d = .ok k d1) (listed : Drafting.list k d1 = .ok () e) :
    ∃ o, k = g.ops.size + ops.length ∧ Staged g id V target (ops ++ [o]) e := by
  obtain ⟨outTypes,-,rfl,rfl⟩ := Structured.makeOk ok
  exact ⟨_,staged.size,staged.list ⟨rfl,rfl⟩ offered listed⟩

omit staged in
theorem resultAt {o v i} (after : Staged g id V target (ops ++ [o]) e)
    (ok : e.graph.resultAt (g.ops.size + ops.length) i = .ok v) : Offers g V (ops ++ [o]) (some v) := by
  obtain ⟨lt,rfl⟩ := resultAtOk.mp ok
  rw [after.graph,g.pushAllNew _ getElem?_concat_length] at lt
  exact offersLast o lt

theorem moveRegion {k} (none : target = none) (new : ∃ m, m < ops.length ∧ k = g.ops.size + m)
    (ok : Draft.moveRegion (some id) (some k) d = .ok () e) : Staged g id V (some k) ops e := by
  cases ok
  refine ⟨staged.graph,staged.created,staged.plain,staged.operands,fun t same => ?_,?_,staged.replacements,
    staged.erased⟩
  · cases same
    exact new
  · have moves := staged.moves
    rw [none] at moves
    simpa using moves

theorem replaceWithNew (sight : Sight g id V) {o : Operation} (plain : o.region = none ∧ o.block = none)
    (operands : ∀ v ∈ o.operands, Offers g V ops v)
    (ok : Draft.replaceWithNew id d.graph.ops.size { d with graph := d.graph.push o } = .ok () e) :
    ∃ vals, Ready g id V target vals e := by
  obtain ⟨_,d1,listed,ok⟩ := bindOk.mp ok
  have after := staged.list plain operands listed
  obtain ⟨_,rfl,ok⟩ := Step.read Drafting.graphOk ok
  refine after.replace sight (fun v mem => ?_) ok
  obtain ⟨w,result,rfl⟩ := mem_map.mp mem
  obtain ⟨i,lt,rfl⟩ := mem_map.mp result
  rw [staged.size] at lt ⊢
  rw [after.graph,g.pushAllNew _ getElem?_concat_length,mem_range] at lt
  exact offersLast o lt

end Staged

end TileLower
